import LocaleWatch.Proofs.Cache.ReadableFiles
import LocaleWatch.Proofs.Events
import LocaleWatch.Proofs.Program.Runs
import LocaleWatch.Proofs.Requests

/-!
# Who changes what in a cache directory

The entries of each kind, the reports and the locks lie in directories of their own below the cache
directory. A change is confined to some of these directories if no file in the others is another
one afterwards, and if the way to the cache directory can still be gone. Confined changes can be put
together, so what an operation on a system changes is found out from the requests that it comes to,
whatever the disk refuses: temporary files and new directories do not leave the directory of the
file that they are made for.

So a check of files leaves the kept main branch alone, and whoever looks it up again finds it. That
needs the way to the cache directory to be straight, as what is kept could be overlooked otherwise
and computed anew.

## Main results

* `Disk.confined_replacement`, `Disk.confined_removal` — changes of a file do not leave its
  directory.
* `Installation.Apart.confined_run` — what is changed by operations that use some kinds of entries.
* `Installation.Apart.holdsMain`, `Disk.HoldsMain.main_eq` — a main branch that was looked up is
  kept, and found again.
-/

namespace LocaleWatch

open Replacement Text

namespace Disk

variable {σ : Type} (disk : Disk σ) (folder : CacheFolder)

/-! ## Confined changes -/

/-- Between two states the way to the cache directory lost no directory, and no file below the cache
directory is another one but in directories of these names. -/
structure Confined (names : Set (List UInt8)) (state later : σ) : Prop where
  way {location : Location} (passes : disk.Passes folder.root location)
    (there : disk.stands state location = some .directory) :
    disk.stands later location = some .directory
  files {name : List UInt8} (other : name ∉ names) (rest : Location) :
    disk.files later (disk.leads folder.root ++ name :: rest) =
      disk.files state (disk.leads folder.root ++ name :: rest)

/-- A request changes something in directories of these names only. -/
def Changes (names : Set (List UInt8)) (request : Host.Request) : Prop :=
  ∀ state, disk.Confined folder names state (disk.after request state)

variable {disk folder} {names more : Set (List UInt8)} {state between later : σ}

namespace Confined

theorem of_stands (same : disk.stands later = disk.stands state) :
    disk.Confined folder names state later where
  way _ there := by rw [same, there]
  files _ _ := congrArg FileEntry.content (congrFun same _)

protected theorem refl (state : σ) : disk.Confined folder names state state :=
  of_stands rfl

protected theorem trans (first : disk.Confined folder names state between)
    (second : disk.Confined folder names between later) :
    disk.Confined folder names state later where
  way passes there := second.way passes (first.way passes there)
  files other rest := (second.files other rest).trans (first.files other rest)

theorem mono (confined : disk.Confined folder names state later) (within : names ⊆ more) :
    disk.Confined folder more state later where
  way := confined.way
  files other rest := confined.files (fun mem => other (within mem)) rest

/-- The way stays straight. -/
theorem straight (confined : disk.Confined folder names state later)
    (straight : disk.Straight state folder.root.components) :
    disk.Straight later folder.root.components := by
  intro front rest shape
  refine confined.way ⟨front, ?_, rfl⟩ (straight front rest shape)
  rw [shape]
  exact List.prefix_append front _

/-- Entries of kinds whose directories are not among those that changed are as they were. -/
theorem entry {kind : EntryKind} (confined : disk.Confined folder names state later)
    (other : bytes kind.category ∉ names) (key : String) :
    disk.entry folder later kind key = disk.entry folder state kind key := by
  unfold Disk.entry
  rw [disk.leads_entry folder kind.check_category]
  exact confined.files other _

end Confined

/-- What each request of a program changes is what its run changes. -/
theorem confined_run {I : Interface} {α : Type} {handler : Program.Handler I σ}
    {kind : I.Request → Prop} {program : Program I α} (asks : program.Asks kind)
    (each : ∀ request, kind request → ∀ state,
      disk.Confined folder names state (handler request state).2) (state : σ) :
    disk.Confined folder names state (program.run handler state).2 := by
  have meets : Program.Meets handler (disk.Confined folder names state) program state
      fun _ => disk.Confined folder names state :=
    asks.meets (fun request may between so => so.trans (each request may between)) (.refl state)
  exact meets.run

/-! ## Requests -/

/-- Directories are no files. -/
theorem changes_makeDirectories (directory : Path) :
    disk.Changes folder names (.makeDirectories directory) := by
  intro state
  refine ⟨fun {location} _ there => ?_, fun _ rest => ?_⟩
  · rcases disk.make directory state location with same | ⟨missing, -, -⟩
    · rw [same, there]
    · rw [missing] at there
      contradiction
  · rcases disk.make directory state _ with same | ⟨missing, made, -⟩
    · exact congrArg FileEntry.content same
    · rw [FileSystem.files, FileSystem.files, made, missing]
      rfl

/-- A change of one place that is no directory is in the directory of that place, also if
directories were made before it. -/
theorem confined_of_update {place : Location} {entry : Option FileEntry} {directory : List UInt8}
    {rest : Location} {base : Location → Option FileEntry} (isIn : directory ∈ names)
    (inside : place = disk.leads folder.root ++ directory :: rest)
    (noDirectory : base place ≠ some .directory)
    (kept : ∀ location, disk.stands state location = some .directory →
      base location = some .directory)
    (content : FileEntry.content ∘ base = disk.files state)
    (stands : disk.stands later = Function.update base place entry) :
    disk.Confined folder names state later where
  way {location} _ there := by
    have was := kept location there
    have other : location ≠ place := by
      rintro rfl
      exact noDirectory was
    rw [stands, Function.update_of_ne other, was]
  files {name} other tail := by
    have elsewhere : disk.leads folder.root ++ name :: tail ≠ place := by
      rw [inside]
      intro same
      exact other ((List.cons.inj (List.append_cancel_left same)).1 ▸ isIn)
    rw [FileSystem.files, stands, Function.update_of_ne elsewhere]
    exact congrFun content _

section

variable {file : Path} {directory name : List UInt8}
  (place : file.components = folder.root.components ++ [.name directory, .name name])

include place

/-- A file that is removed is in its directory. -/
theorem confined_removal (state : σ) :
    disk.Confined folder {directory} state (disk.after (.remove file) state) := by
  cases told : (disk.told (.remove file) state : Except Fault Unit) with
  | error fault => exact .of_stands (disk.remove_error told)
  | ok done =>
    obtain ⟨⟨held, isFile⟩, stands⟩ := disk.remove_ok told
    refine confined_of_update rfl (disk.leads_inside place) ?_ (fun _ there => there) rfl stands
    rw [isFile]
    exact nofun

/-- A file that is replaced is in its directory, and so are the temporary files for it. -/
theorem confined_replacement (bytes : List UInt8) (state : σ) :
    disk.Confined folder {directory} state
      ((Replacement.run file bytes).run.run disk.handle state).2 := by
  cases result : ((Replacement.run file bytes).run.run disk.handle state).1 with
  | ok done =>
    obtain ⟨base, grown, replaced⟩ := disk.replaced_of_ok result
    exact confined_of_update rfl (disk.leads_inside place) replaced.noDirectory
      (fun _ => grown.directory) grown.content replaced.stands
  | error fault =>
    obtain ⟨base, grown, same | ⟨draft, refusal, pending, -⟩⟩ := disk.undone_of_error result
    · refine ⟨fun {location} _ there => ?_, fun _ rest => ?_⟩
      · exact (congrFun same location).trans (grown.directory there)
      · exact (congrArg FileEntry.content (congrFun same _)).trans (congrFun grown.content _)
    · obtain ⟨ticket, rfl⟩ := pending.ours
      let last := ((Replacement.run file bytes).run.run disk.handle state).2
      let draft := disk.leads (temporary file ticket)
      have stands : disk.stands last = Function.update base draft (disk.stands last draft) := by
        funext location
        by_cases here : location = draft
        · rw [here, Function.update_self]
        · rw [Function.update_of_ne here]
          exact pending.others location here
      refine confined_of_update rfl (disk.leads_temporary_inside place ticket) ?_
        (fun _ => grown.directory) grown.content stands
      rw [pending.free]
      exact nofun

end

/-! ## Calls of the store -/

section

/-- Whoever reads an entry or looks for one leaves everything as it stands. -/
theorem stands_of_looks {call : StoreCall} (looks : call.Looks) (state : σ) :
    disk.stands ((folder.carryOut call).run disk.handle state).2 = disk.stands state := by
  cases valid : Category.check call.category with
  | error error =>
    rw [folder.carryOut_invalid valid]
    rfl
  | ok value =>
    cases call with
    | read category key =>
      dsimp only [StoreCall.category] at valid
      rw [folder.carryOut_read key valid]
      exact disk.looks (.read _) trivial state
    | holds category key =>
      dsimp only [StoreCall.category] at valid
      rw [folder.carryOut_holds key valid]
      exact disk.looks (.kind _) trivial state
    | write | delete => exact False.elim looks

variable (category key : String) (state : σ)

/-- Whoever is told an entry's bytes has found its file. -/
theorem entry_of_read (kind : EntryKind) {bytes : List UInt8}
    (told : ((folder.carryOut (.read kind.category key)).run disk.handle state).1 =
      Except.ok (some bytes)) :
    disk.entry folder state kind key = some bytes := by
  rw [folder.carryOut_read key kind.check_category] at told
  change CacheFolder.found _ (disk.told (.read (folder.entry kind.category key)) state :
    Except Fault (List UInt8)) = _ at told
  cases read : (disk.told (.read (folder.entry kind.category key)) state :
      Except Fault (List UInt8)) with
  | ok held =>
    rw [read] at told
    cases told
    exact congrArg FileEntry.content (disk.read_ok read)
  | error fault =>
    rw [read] at told
    cases fault <;> cases told

/-- Whoever is told that there is no entry has overlooked none, if the way is straight. -/
theorem entry_of_missing (kind : EntryKind)
    (straight : disk.Straight state folder.root.components)
    (told : ((folder.carryOut (.read kind.category key)).run disk.handle state).1 =
      Except.ok none) :
    disk.entry folder state kind key = none := by
  have valid := kind.check_category
  rw [folder.carryOut_read key valid] at told
  change CacheFolder.found _ (disk.told (.read (folder.entry kind.category key)) state :
    Except Fault (List UInt8)) = _ at told
  have missed : disk.told (.read (folder.entry kind.category key)) state =
      Except.error Fault.notFound := by
    cases read : (disk.told (.read (folder.entry kind.category key)) state :
        Except Fault (List UInt8)) with
    | ok held =>
      rw [read] at told
      cases told
    | error fault =>
      rw [read] at told
      cases fault <;> first | rfl | cases told
  have inside : disk.Straight state (folder.entry kind.category key).components := by
    rw [folder.components_entry valid key]
    exact straight.append (by simp)
  obtain ⟨place, passes, missing⟩ :=
    disk.read_notFound missed (folder.components_entry_ne_nil valid key)
  exact congrArg FileEntry.content (disk.missing_of_passes inside passes missing)

/-- A write that was granted has put its bytes in the entry's place. -/
theorem entry_of_write (kind : EntryKind) {bytes : List UInt8}
    (told : ((folder.carryOut (.write kind.category key bytes)).run disk.handle state).1 =
      Except.ok ()) :
    disk.entry folder
      ((folder.carryOut (.write kind.category key bytes)).run disk.handle state).2 kind key =
        some bytes := by
  rw [folder.run_carryOut_write key kind.check_category] at told ⊢
  have success : ((Replacement.run (folder.entry kind.category key) bytes).run.run disk.handle
      state).1 = .ok () := by
    cases result : ((Replacement.run (folder.entry kind.category key) bytes).run.run disk.handle
        state).1 with
    | ok done => rfl
    | error fault =>
      rw [result] at told
      cases told
  obtain ⟨base, -, replaced⟩ := disk.replaced_of_ok success
  show disk.files _ _ = _
  rw [replaced.files, Function.update_self]

variable {category} (valid : Category.check category = .ok ())

include valid

/-- Whoever writes an entry changes something in the directory of its category only. -/
theorem confined_write (content : List UInt8) :
    disk.Confined folder {bytes category} state
      ((folder.carryOut (.write category key content)).run disk.handle state).2 := by
  have replaced : disk.Confined folder {bytes category} state
      ((Replacement.run (folder.entry category key) content).run.run disk.handle state).2 :=
    confined_replacement (folder.components_entry valid key) content state
  rw [folder.run_carryOut_write key valid]
  dsimp only
  exact replaced

theorem confined_delete :
    disk.Confined folder {bytes category} state
      ((folder.carryOut (.delete category key)).run disk.handle state).2 := by
  rw [folder.carryOut_delete key valid]
  exact confined_removal (folder.components_entry valid key) state

end

end Disk

/-! ## Entries of some kinds -/

/-- The directories of entries of these kinds. -/
def EntryKind.directories (kinds : Set EntryKind) : Set (List UInt8) :=
  (fun kind => bytes kind.category) '' kinds

theorem EntryKind.mem_directories {kinds : Set EntryKind} {kind : EntryKind} :
    bytes kind.category ∈ directories kinds ↔ kind ∈ kinds := by
  constructor
  · rintro ⟨other, mem, same⟩
    exact category_injective (bytes_injective same) ▸ mem
  · exact fun mem => ⟨kind, mem, rfl⟩

/-- Whether a request changes entries of these kinds only and does not cancel the run. -/
def Tracking.Touches (kinds : Set EntryKind) : Tracking.Request → Prop
  | .write category _ _ | .delete category _ => ∃ kind ∈ kinds, kind.category = category
  | .cancel => False
  | _ => True

theorem Tracking.Touches.mono {kinds more : Set EntryKind} {request : Tracking.Request}
    (touches : Tracking.Touches kinds request) (within : kinds ⊆ more) :
    Tracking.Touches more request := by
  cases request with
  | write | delete =>
    obtain ⟨kind, mem, same⟩ := touches
    exact ⟨kind, within mem, same⟩
  | cancel => exact touches
  | isCancelled | query | read | holds => trivial

/-- An entry of one of these kinds may be looked up. -/
theorem Tracking.Touches.mayLookUp {kinds : Set EntryKind} {kind : EntryKind} (mem : kind ∈ kinds)
    (key : String) (query : Query) :
    Tracking.MayLookUp (Tracking.Touches kinds) kind.category key query :=
  ⟨trivial, fun _ => ⟨kind, mem, rfl⟩, trivial⟩

/-- A refresh changes entries only. -/
theorem Refresh.touches_run : Refresh.run.Asks (Tracking.Touches Set.univ) :=
  have may (kind : EntryKind) (key : String) (query : Query) :=
    Tracking.Touches.mayLookUp (Set.mem_univ kind) key query
  asks_run trivial (may .mainBranch _ _) (fun _ => may .fork _ _) (fun _ => trivial)
    (fun _ => ⟨⟨.lastCommit, trivial, rfl⟩, ⟨.commitsAfter, trivial, rfl⟩⟩)
    ⟨.mainBranch, trivial, rfl⟩ fun _ => ⟨.refreshState, trivial, rfl⟩

theorem History.touches_mainBranch : History.mainBranch.Asks (Tracking.Touches Set.univ) :=
  asks_mainBranch trivial
    (Tracking.Touches.mayLookUp (Set.mem_univ EntryKind.mainBranch) "" .mainBranch)

/-- A check of a file leaves the kept main branch alone. -/
theorem Staleness.touches_checkFile (layout : Layout) (main : MainBranch)
    (language path : String) :
    (checkFile layout main language path).Asks (Tracking.Touches {.mainBranch}ᶜ) :=
  have may (kind : EntryKind) (other : kind ∈ ({.mainBranch} : Set EntryKind)ᶜ) (key : String)
      (query : Query) := Tracking.Touches.mayLookUp other key query
  asks_checkFile trivial layout main language path (may .lastCommit (by nofun) _ _) trivial
    (fun _ => may .commitsAfter (by nofun) _ _) (fun _ => may .fork (by nofun) _ _)
    fun _ => may .merge (by nofun) _ _

/-- A check of a language changes entries only. -/
theorem Staleness.touches_checkLanguage (layout : Layout) (language : String) :
    (checkLanguage layout language).Asks (Tracking.Touches Set.univ) :=
  (asks_query _ trivial).bind fun _ => History.touches_mainBranch.bind fun main =>
    .mapM fun path _ => Program.Asks.mono (touches_checkFile layout main language path)
      fun _ touches => touches.mono (Set.subset_univ _)

/-! ## Operations on a system -/

namespace Installation

variable {σ : Type} {installation : Installation} {disk : Disk σ}

/-- How a request of the tracker is answered on a disk, as one step. -/
def tracks (installation : Installation) (disk : Disk σ) : Program.Handler Tracking σ :=
  fun request => (installation.meaning request).run disk.handle

/-- Nobody but the runs changes anything in the cache directory: neither the repository, nor the
token, nor the clock, nor the lock, but for the lock's own file. -/
structure Apart (installation : Installation) (disk : Disk σ) : Prop where
  isCancelled : installation.isCancelled.Asks (disk.Changes installation.folder ∅)
  query (query : Query) :
    (installation.query query).Asks (disk.Changes installation.folder ∅)
  now : disk.Changes installation.folder ∅ .now
  lock (patience : Option Nat) :
    disk.Changes installation.folder {bytes "locks"}
      (.lock (Run.lockFile installation.folder) patience)
  unlock : disk.Changes installation.folder ∅ (.unlock (Run.lockFile installation.folder))

namespace Apart

variable (apart : installation.Apart disk) {kinds : Set EntryKind} {state later : σ}

include apart

/-- A request that uses some kinds of entries changes nothing but these. -/
theorem confined_tracks {request : Tracking.Request} (touches : Tracking.Touches kinds request)
    (state : σ) :
    disk.Confined installation.folder (EntryKind.directories kinds) state
      (installation.tracks disk request state).2 := by
  have spared {α : Type} {program : Program Host α}
      (asks : program.Asks (disk.Changes installation.folder ∅)) :
      disk.Confined installation.folder (EntryKind.directories kinds) state
        (program.run disk.handle state).2 :=
    (Disk.confined_run asks (fun _ changes => changes) state).mono (Set.empty_subset _)
  have within {kind : EntryKind} (mem : kind ∈ kinds) :
      {bytes kind.category} ⊆ EntryKind.directories kinds :=
    Set.singleton_subset_iff.2 (EntryKind.mem_directories.2 mem)
  cases request with
  | isCancelled => exact spared apart.isCancelled
  | cancel => exact False.elim touches
  | query query => exact spared (apart.query query)
  | read category key =>
    exact .of_stands (@Disk.stands_of_looks _ _ _ (.read category key) trivial state)
  | holds category key =>
    exact .of_stands (@Disk.stands_of_looks _ _ _ (.holds category key) trivial state)
  | write category key content =>
    obtain ⟨kind, mem, rfl⟩ := touches
    exact (Disk.confined_write key state kind.check_category content).mono (within mem)
  | delete category key =>
    obtain ⟨kind, mem, rfl⟩ := touches
    exact (Disk.confined_delete key state kind.check_category).mono (within mem)

/-- Operations that use some kinds of entries change nothing but these. -/
theorem confined_run {ε α : Type} {attempt : Attempt Tracking ε α} {result : Except ε α}
    (asks : attempt.Asks (Tracking.Touches kinds))
    (runs : Attempt.Runs (installation.tracks disk) attempt state result later) :
    disk.Confined installation.folder (EntryKind.directories kinds) state later := by
  have confined := Disk.confined_run asks (fun _ touches => apart.confined_tracks touches) state
  rwa [show attempt.run.run (installation.tracks disk) state = _ from runs] at confined

end Apart

end Installation

/-- A repository of the version-control program changes nothing in a cache directory, as long as the
program changes nothing there; for the rest it looks at the token and for files. -/
theorem Installation.apart_installed {σ : Type} (disk : Disk σ) (folder : CacheFolder)
    (repository : GitRepository) (isCancelled : disk.Changes folder ∅ .isCancelled)
    (git : ∀ command, disk.Changes folder ∅ (.git command))
    (walk : ∀ directory, disk.Changes folder ∅ (.walk directory))
    (now : disk.Changes folder ∅ .now)
    (lock : ∀ patience, disk.Changes folder {bytes "locks"} (.lock (Run.lockFile folder) patience))
    (unlock : disk.Changes folder ∅ (.unlock (Run.lockFile folder))) :
    (repository.installed folder).Apart disk where
  isCancelled := ⟨isCancelled, fun _ => trivial⟩
  query query := by
    refine Program.Asks.mono (repository.asks_answer query) fun request may => ?_
    cases request with
    | isCancelled => exact isCancelled
    | git command => exact git command
    | walk directory => exact walk directory
    | kind path => exact fun state => .of_stands (disk.looks (.kind path) trivial state)
    | _ => exact False.elim may
  now := now
  lock := lock
  unlock := unlock

/-- Of the files of a machine a lock changes what opening its file changes. -/
theorem Machine.files_lock (machine : Machine) (file : Path) (patience : Option Nat) :
    (machine.lock file patience).2.files =
      match machine.files.openFile machine.directory file with
      | .error _ => machine.files
      | .ok found => found.2 := by
  unfold Machine.lock
  cases machine.files.openFile machine.directory file with
  | error fault => rfl
  | ok found =>
    dsimp only
    split
    · split <;> rfl
    · rfl

/-- On a machine the lock makes its own file if it is missing. -/
theorem Machine.changes_lock (directory : Location) (process : Nat) (folder : CacheFolder)
    (patience : Option Nat) :
    (Machine.disk directory process).Changes folder {bytes "locks"}
      (.lock (Run.lockFile folder) patience) := by
  intro state
  have isName : Path.IsName (bytes ("refresh" ++ ".lock")) := ⟨by decide, rfl⟩
  have inside : (Machine.disk directory process).leads (Run.lockFile folder) = _ :=
    (Machine.disk directory process).leads_inside (folder.components_lock isName)
  have files := Machine.files_lock state.1 (Run.lockFile folder) patience
  cases opened : state.1.files.openFile state.1.directory (Run.lockFile folder) with
  | error fault =>
    rw [opened] at files
    exact .of_stands (congrArg FileTree.get? files)
  | ok found =>
    rw [opened] at files
    rcases FileTree.openFile_ok opened with same | ⟨located, free, made⟩
    · exact .of_stands (congrArg FileTree.get? (files.trans same))
    · have place := (state.2.leads located).symm.trans inside
      have inner : found.1 ≠ [] := by
        rw [place]
        exact List.append_ne_nil_of_right_ne_nil _ (List.cons_ne_nil _ _)
      refine Disk.confined_of_update rfl place ?_ (fun _ there => there) rfl
        ((congrArg FileTree.get? (files.trans made)).trans (Machine.get?_put inner _))
      exact fun isDirectory => Option.some_ne_none _ (isDirectory.symm.trans free)

/-- On a machine nobody but the runs changes anything in a cache directory. -/
theorem Machine.apart_installed (directory : Location) (process : Nat)
    (repository : GitRepository) (folder : CacheFolder) :
    (repository.installed folder).Apart (Machine.disk directory process) := by
  have spares {request : Host.Request}
      (same : ∀ machine, (Machine.handle request machine).2.files = machine.files) :
      (Machine.disk directory process).Changes folder ∅ request :=
    fun state => .of_stands (congrArg FileTree.get? (same state.1))
  refine Installation.apart_installed _ folder repository (spares fun _ => rfl)
    (fun command => spares fun machine => ?_) (fun _ => spares fun _ => rfl)
    (spares fun _ => rfl) (Machine.changes_lock directory process folder)
    (spares fun machine => ?_)
  · unfold Machine.handle Machine.git
    dsimp only
    repeat' split
    all_goals rfl
  · unfold Machine.handle Machine.unlock
    dsimp only
    split <;> rfl

/-! ## The kept main branch -/

namespace Disk

variable {σ : Type} {disk : Disk σ} {folder : CacheFolder} {main : MainBranch} {state later : σ}

/-- This main branch is kept, and there is no way to overlook it. -/
structure HoldsMain (disk : Disk σ) (folder : CacheFolder) (main : MainBranch) (state : σ) :
    Prop where
  straight : disk.Straight state folder.root.components
  entry : ∃ bytes, disk.entry folder state .mainBranch "" = some bytes ∧
    JsonForm.decode? (List Commit) bytes = some main.commits

/-- Changes in other directories leave the kept main branch as it is. -/
theorem HoldsMain.confined {names : Set (List UInt8)} (holds : disk.HoldsMain folder main state)
    (confined : disk.Confined folder names state later)
    (other : bytes EntryKind.mainBranch.category ∉ names) : disk.HoldsMain folder main later := by
  refine ⟨confined.straight holds.straight, ?_⟩
  rw [confined.entry other]
  exact holds.entry

/-- A main branch that was written down is kept. -/
theorem holdsMain_of_write {commits : List Commit}
    (straight : disk.Straight state folder.root.components)
    (told : ((folder.carryOut (.write History.mainBranchCategory ""
      (Text.bytes (JsonForm.compact commits)))).run disk.handle state).1 = Except.ok ()) :
    disk.HoldsMain folder ⟨commits⟩ ((folder.carryOut (.write History.mainBranchCategory ""
      (Text.bytes (JsonForm.compact commits)))).run disk.handle state).2 :=
  ⟨(confined_write "" state EntryKind.mainBranch.check_category _).straight straight, _,
    entry_of_write "" state .mainBranch told, JsonForm.decode_compact commits⟩

end Disk

namespace Installation.Apart

variable {σ : Type} {installation : Installation} {disk : Disk σ} {main : MainBranch}
  {state later : σ} (apart : installation.Apart disk)

include apart

/-- Operations that use other kinds of entries leave the kept main branch as it is. -/
theorem holdsMain_of_runs {ε α : Type} {attempt : Attempt Tracking ε α} {result : Except ε α}
    {kinds : Set EntryKind} (asks : attempt.Asks (Tracking.Touches kinds))
    (other : .mainBranch ∉ kinds) (holds : disk.HoldsMain installation.folder main state)
    (runs : Attempt.Runs (installation.tracks disk) attempt state result later) :
    disk.HoldsMain installation.folder main later :=
  holds.confined (apart.confined_run asks runs) (EntryKind.mem_directories.not.2 other)

/-- Questions change nothing. -/
private theorem confined_question (request : Tracking.Request)
    (touches : Tracking.Touches ∅ request) (state : σ) :
    disk.Confined installation.folder ∅ state (installation.tracks disk request state).2 := by
  have confined := apart.confined_tracks touches state
  rwa [EntryKind.directories, Set.image_empty] at confined

/-- A main branch that was looked up is kept. -/
theorem holdsMain (straight : disk.Straight state installation.folder.root.components)
    (runs : Attempt.Runs (installation.tracks disk) History.mainBranch state (.ok main) later) :
    disk.HoldsMain installation.folder main later := by
  obtain ⟨events, ends, led⟩ := runs.ends
  have stays (request : Tracking.Request) (touches : Tracking.Touches ∅ request) {state : σ} :=
    (apart.confined_question request touches state).straight
  cases ends_mainBranch_ok ends with
  | @kept held commits decodes =>
    obtain ⟨-, told, last⟩ := led
    obtain ⟨content, rfl, decoded⟩ := decodes
    have found := Disk.entry_of_read "" _ .mainBranch told
    rw [show later = _ from last]
    exact Disk.HoldsMain.confined ⟨stays .isCancelled trivial straight, content, found, decoded⟩
      (apart.confined_question (.read _ _) trivial _) (Set.notMem_empty _)
  | @asked commits =>
    obtain ⟨-, -, -, -, told, last⟩ := led
    have asked := stays .isCancelled trivial (stays (.query .mainBranch) trivial
      (stays (.read History.mainBranchCategory "") trivial (stays .isCancelled trivial straight)))
    rw [show later = _ from last]
    exact Disk.holdsMain_of_write asked told

/-- A main branch that is kept is found when it is looked up. -/
theorem mainBranch_eq {other : MainBranch}
    (holds : disk.HoldsMain installation.folder main state)
    (runs : Attempt.Runs (installation.tracks disk) History.mainBranch state (.ok other) later) :
    other = main := by
  obtain ⟨events, ends, led⟩ := runs.ends
  have still := holds.confined (apart.confined_question .isCancelled trivial state)
    (Set.notMem_empty _)
  obtain ⟨content, held, decoded⟩ := still.entry
  cases ends_mainBranch_ok ends with
  | @kept _ commits decodes =>
    obtain ⟨-, told, -⟩ := led
    obtain ⟨found, rfl, reads⟩ := decodes
    have same := (Disk.entry_of_read "" _ .mainBranch told).symm.trans held
    rw [Option.some.inj same, decoded] at reads
    rw [← Option.some.inj reads]
  | asked =>
    obtain ⟨-, told, -⟩ := led
    have missing := Disk.entry_of_missing "" _ .mainBranch still.straight told
    rw [held] at missing
    contradiction

end Installation.Apart

end LocaleWatch
