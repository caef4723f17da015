import LocaleWatch.Cache.Store
import LocaleWatch.Proofs.Program.Transcript
import LocaleWatch.Proofs.Surroundings

/-!
# Calls of the store

The store is called to read, write, remove and look for entries. A map answers such calls, and so
do the files below a cache directory: each call whose category is a category is one request of the
system or one replacement of a file, and a call with any other category is none at all.

## Main results

* `Entries.answer` — how a map answers calls.
* `CacheFolder.carryOut` — how files answer calls.
* `CacheFolder.carryOut_invalid` — no file is touched for a text that is no category.
-/

namespace LocaleWatch

/-- A call of the store. -/
inductive StoreCall where
  | read (category key : String)
  | write (category key : String) (bytes : List UInt8)
  | delete (category key : String)
  | holds (category key : String)
  deriving DecidableEq, Repr

namespace StoreCall

/-- The answers to a call. -/
def Answer : StoreCall → Type
  | .read _ _ => Except CacheError (Option (List UInt8))
  | .write _ _ _ | .delete _ _ => Except CacheError Unit
  | .holds _ _ => Except CacheError Bool

/-- The category that a call names. -/
def category : StoreCall → String
  | .read category _ | .write category _ _ | .delete category _ | .holds category _ => category

/-- The key that a call names. -/
def key : StoreCall → String
  | .read _ key | .write _ key _ | .delete _ key | .holds _ key => key

/-- Whether a call only looks. -/
def Looks : StoreCall → Prop
  | .read _ _ | .holds _ _ => True
  | .write _ _ _ | .delete _ _ => False

/-- The answer to a call that names no category. -/
def refuse (error : InvalidCategory) : (call : StoreCall) → call.Answer
  | .read _ _ | .write _ _ _ | .delete _ _ | .holds _ _ => Except.error (.invalidCategory error)

end StoreCall

/-- The interface of the store. -/
def Storing : Interface := ⟨StoreCall, StoreCall.Answer⟩

namespace Entries

/-- How a map answers a call whose category is a category. -/
def accept (entries : Entries) : (call : StoreCall) → call.Answer × Entries
  | .read category key => (Except.ok (entries category key), entries)
  | .write category key bytes => (Except.ok (), entries.put category key bytes)
  | .delete category key => (Except.ok (), entries.remove category key)
  | .holds category key => (Except.ok (entries category key).isSome, entries)

/-- How a map answers calls. -/
def answer : Program.Handler Storing Entries := fun call entries =>
  match Category.check call.category with
  | .ok () => entries.accept call
  | .error error => (call.refuse error, entries)

theorem answer_valid {entries : Entries} {call : StoreCall}
    (valid : Category.check call.category = .ok ()) :
    answer call entries = entries.accept call := by
  unfold answer
  rw [valid]

theorem answer_invalid {entries : Entries} {call : StoreCall} {error : InvalidCategory}
    (invalid : Category.check call.category = .error error) :
    answer call entries = (call.refuse error, entries) := by
  unfold answer
  rw [invalid]
  rfl

end Entries

namespace CacheFolder

/-- How files answer calls. -/
def carryOut (folder : CacheFolder) : (call : StoreCall) → Program Host call.Answer
  | .read category key => (folder.readEntry category key).run
  | .write category key bytes => (folder.writeEntry category key bytes).run
  | .delete category key => (folder.removeEntry category key).run
  | .holds category key => (folder.hasEntry category key).run

/-- What the answer about a file tells about its entry: who misses the file finds no entry. -/
def settled {α β : Type} (failed : Fault → CacheError) (absent : β) (there : α → β) :
    Except Fault α → Except CacheError β
  | .ok value => .ok (there value)
  | .error .notFound => .ok absent
  | .error fault => .error (failed fault)

/-- What a read of a file tells about its entry. -/
def found (file : Path) : Except Fault (List UInt8) → Except CacheError (Option (List UInt8)) :=
  settled (.read file) none some

/-- What the removal of a file tells about its entry. -/
def gone (file : Path) : Except Fault Unit → Except CacheError Unit :=
  settled (.delete file) () id

/-- What the kind of a file tells about its entry. -/
def present (file : Path) : Except Fault FileKind → Except CacheError Bool :=
  settled (.read file) false fun _ => true

/-- What is told of a file that has the bytes of an entry, and is missing without one. -/
def answered {α : Type} (tell : List UInt8 → α) (entry : Option (List UInt8)) : Except Fault α :=
  entry.elim (.error .notFound) (.ok ∘ tell)

theorem found_answered (file : Path) (entry : Option (List UInt8)) :
    found file (answered id entry) = .ok entry := by
  cases entry <;> rfl

theorem gone_answered (file : Path) (entry : Option (List UInt8)) :
    gone file (answered (fun _ => ()) entry) = .ok () := by
  cases entry <;> rfl

theorem present_answered (file : Path) (entry : Option (List UInt8)) :
    present file (answered (fun _ => .file) entry) = .ok entry.isSome := by
  cases entry <;> rfl

variable (folder : CacheFolder) {category : String} (key : String)

/-! ## One call -/

/-- Who has a category goes on with the file of the entry. -/
theorem run_valid {α : Type} (valid : Category.check category = .ok ())
    (next : Path → Attempt Host CacheError α) :
    (liftM (folder.entryFile category key) >>= next).run =
      (next (folder.entry category key)).run := by
  rw [entryFile, valid]
  rfl

/-- Who has no category goes no further. -/
theorem run_invalid {α : Type} {error : InvalidCategory}
    (invalid : Category.check category = .error error)
    (next : Path → Attempt Host CacheError α) :
    (liftM (folder.entryFile category key) >>= next).run =
      .done (.error (.invalidCategory error)) := by
  rw [entryFile, invalid]
  rfl

/-- A call that names no category is refused before any file is touched. -/
theorem carryOut_invalid {call : StoreCall} {error : InvalidCategory}
    (invalid : Category.check call.category = .error error) :
    folder.carryOut call = .done (call.refuse error) := by
  cases call with
  | read category key => exact folder.run_invalid key invalid _
  | write category key bytes => exact folder.run_invalid key invalid _
  | delete category key => exact folder.run_invalid key invalid _
  | holds category key => exact folder.run_invalid key invalid _

section

variable (valid : Category.check category = .ok ())

include valid

theorem carryOut_read :
    folder.carryOut (.read category key) = .ask (I := Host) (.read (folder.entry category key))
      fun told => .done (found (folder.entry category key) told) := by
  refine (folder.run_valid key valid _).trans ?_
  refine congrArg (Program.ask (I := Host) (.read (folder.entry category key)))
    (funext fun told => ?_)
  rcases told with fault | bytes
  · cases fault <;> rfl
  · rfl

theorem carryOut_delete :
    folder.carryOut (.delete category key) = .ask (I := Host) (.remove (folder.entry category key))
      fun told => .done (gone (folder.entry category key) told) := by
  refine (folder.run_valid key valid _).trans ?_
  refine congrArg (Program.ask (I := Host) (.remove (folder.entry category key)))
    (funext fun told => ?_)
  rcases told with fault | value
  · cases fault <;> rfl
  · rfl

theorem carryOut_holds :
    folder.carryOut (.holds category key) = .ask (I := Host) (.kind (folder.entry category key))
      fun told => .done (present (folder.entry category key) told) := by
  refine (folder.run_valid key valid _).trans ?_
  refine congrArg (Program.ask (I := Host) (.kind (folder.entry category key)))
    (funext fun told => ?_)
  rcases told with fault | kind
  · cases fault <;> rfl
  · rfl

theorem carryOut_write (bytes : List UInt8) :
    folder.carryOut (.write category key bytes) =
      (Replacement.run (folder.entry category key) bytes).run.bind fun told =>
        .done (told.mapError (.write (folder.entry category key))) := by
  have next := folder.run_valid key valid fun file =>
    Attempt.mapError (.write file) (Replacement.run file bytes)
  exact next.trans Attempt.run_mapError

variable {σ : Type} (bytes : List UInt8) (handler : Program.Handler Host σ) (state : σ)

theorem run_carryOut_write :
    (folder.carryOut (.write category key bytes)).run handler state =
      (((Replacement.run (folder.entry category key) bytes).run.run handler state).1.mapError
          (.write (folder.entry category key)),
        ((Replacement.run (folder.entry category key) bytes).run.run handler state).2) := by
  rw [folder.carryOut_write key valid]
  exact Program.run_bind handler _ _ state

theorem runFor_carryOut_write (count : Nat) :
    ((folder.carryOut (.write category key bytes)).runFor handler count state).2 =
      ((Replacement.run (folder.entry category key) bytes).run.runFor handler count state).2 := by
  rw [folder.carryOut_write key valid]
  exact Program.runFor_bind_done handler _ _ count state

end

end CacheFolder

end LocaleWatch
