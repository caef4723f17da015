import LocaleWatch.Proofs.Files.Replacement
import LocaleWatch.Proofs.Program.Runs

/-!
# What a calm disk grants

A disk may refuse anything at any time. Without failures it grants what can be granted: a file
that is found is read, a directory is made unless a file is in the way, a file is made in a
directory where nothing stands. What can be granted is a matter of what stands where, and not of
what was answered, so that a program that asks for what cannot be granted is refused also in a calm
run: whoever makes a file in a directory that is not there has no failure to blame.

## Main results

* `FileSystem.due` — what is answered by a system that refuses nothing.
* `Disk.find_eq` — what is found at the end of a straight way on which there is no file.
* `Disk.calm_bind` — a sequence is calm if its parts are.
* `Disk.not_error_of_calm` — a calm replacement does not fail.
* `Disk.ok_of_calm` — it succeeds, as some temporary name is free.
-/

namespace LocaleWatch

open Replacement

/-- The kind of what stands somewhere. -/
def FileEntry.kind : FileEntry → FileKind
  | .file _ => .file
  | .directory => .directory

namespace FileSystem

variable {σ : Type} (system : FileSystem σ) (state : σ)

/-- What is found by following components from a place, unless a file is in the way. -/
def follow : Location → List Path.Component → Option (Option FileEntry)
  | here, [] => some (system.stands state here)
  | here, component :: rest =>
    match system.stands state here with
    | some .directory => follow (here.step component) rest
    | some (.file _) => none
    | none => some none

/-- What is found at a path. -/
def find (path : Path) : Option (Option FileEntry) :=
  system.follow state system.directory path.components

/-- Whether a path names something in a directory that is found. -/
def hasPlace (path : Path) : Bool :=
  path.fileName?.isSome &&
    system.follow state system.directory path.components.dropLast = some (some .directory)

/-- Whether a file is on the way to a path or at its end. -/
def isBarred (path : Path) : Bool :=
  path.components.inits.any fun front =>
    (FileEntry.content (system.stands state (Location.along system.directory front))).isSome

/-- What is answered to a request by a system that refuses nothing; none where there is nothing
to be granted. -/
def due : (request : Host.Request) → Option (Host.Answer request)
  | .kind path =>
    match system.find state path with
    | some (some entry) => some (Except.ok entry.kind)
    | some none => some (Except.error Fault.notFound)
    | none => none
  | .read path =>
    match system.find state path with
    | some (some (.file bytes)) => some (Except.ok bytes)
    | some none => some (Except.error Fault.notFound)
    | _ => none
  | .remove path =>
    match system.find state path with
    | some (some (.file _)) => some (Except.ok ())
    | some none => some (Except.error Fault.notFound)
    | _ => none
  | .makeDirectories path => if system.isBarred state path then none else some (Except.ok ())
  | .createNew path =>
    if system.hasPlace state path then
      match system.stands state (system.leads path) with
      | none => some (Except.ok ())
      | some _ => some (Except.error Fault.alreadyExists)
    else none
  | .write path _ | .sync path =>
    match system.find state path with
    | some (some (.file _)) => some (Except.ok ())
    | _ => none
  | .rename source target =>
    match system.find state source with
    | some (some (.file _)) =>
      if system.hasPlace state target &&
          system.stands state (system.leads target) ≠ some .directory then
        some (Except.ok ())
      else none
    | _ => none
  | _ => none

/-- Whether a request is granted if it can be. -/
def Grants (request : Host.Request) : Prop :=
  ∀ answer, system.due state request = some answer → system.told request state = answer

/-- That an answer was given if it was due can be checked. -/
private def decideGiven {α : Type} [DecidableEq α] :
    (due : Option (Except Fault α)) → (told : Except Fault α) →
      Decidable (∀ answer, due = some answer → told = answer)
  | none, _ => .isTrue nofun
  | some answer, told =>
    decidable_of_iff (told = answer)
      ⟨fun same _ isDue => same.trans (Option.some.inj isDue), fun given => given answer rfl⟩

instance decidableGrants : (request : Host.Request) → Decidable (system.Grants state request)
  | .kind path => decideGiven (system.due state (.kind path)) _
  | .read path => decideGiven (system.due state (.read path)) _
  | .remove path => decideGiven (system.due state (.remove path)) _
  | .makeDirectories path => decideGiven (system.due state (.makeDirectories path)) _
  | .createNew path => decideGiven (system.due state (.createNew path)) _
  | .write path bytes => decideGiven (system.due state (.write path bytes)) _
  | .sync path => decideGiven (system.due state (.sync path)) _
  | .rename source target => decideGiven (system.due state (.rename source target)) _
  | .isCancelled | .cancel | .git _ | .workingCopy _ | .head _ | .walk _ | .ticket
  | .lock _ _ | .unlock _ | .now | .print _ | .notice _ => .isTrue nofun

variable {state} {path : Path}

/-- Who follows components past no file comes to their end, or misses something on the way. -/
theorem follow_eq {here : Location} {components : List Path.Component}
    (clear : ∀ front component rest, components = front ++ component :: rest →
      FileEntry.content (system.stands state (Location.along here front)) = none) :
    system.follow state here components =
        some (system.stands state (Location.along here components)) ∨
      system.follow state here components = some none ∧
        ∃ front, front <+: components ∧
          system.stands state (Location.along here front) = none := by
  induction components generalizing here with
  | nil => exact .inl rfl
  | cons component rest ih =>
    have now : FileEntry.content (system.stands state here) = none := clear [] component rest rfl
    rw [follow]
    cases there : system.stands state here with
    | none => exact .inr ⟨rfl, [], List.nil_prefix, there⟩
    | some entry =>
      cases entry with
      | file bytes =>
        rw [there] at now
        cases now
      | directory =>
        have past : ∀ front next more, rest = front ++ next :: more →
            FileEntry.content
              (system.stands state (Location.along (here.step component) front)) = none :=
          fun front next more shape =>
            clear (component :: front) next more (by rw [shape, List.cons_append])
        have later := ih past
        rcases later with found | ⟨found, front, under, missing⟩
        · exact .inl found
        · exact .inr ⟨found, component :: front, (List.prefix_cons_inj component).2 under, missing⟩

/-- Whether the directories on the way to a path are there. -/
def Opened (path : Path) (state : σ) : Prop :=
  ∀ front, front <+: path.components.dropLast →
    system.stands state (Location.along system.directory front) = some .directory

theorem find_of_opened (opened : system.Opened path state) :
    system.find state path = some (system.stands state (system.leads path)) := by
  have clear : ∀ front component rest, path.components = front ++ component :: rest →
      FileEntry.content (system.stands state (Location.along system.directory front)) = none := by
    intro front component rest shape
    have under : front <+: path.components := shape ▸ List.prefix_append _ _
    rw [opened front (Location.under_dropLast under (by simp [shape]))]
    rfl
  rcases system.follow_eq clear with found | ⟨found, front, under, missing⟩
  · exact found
  · by_cases whole : front = path.components
    · rw [find, found, leads, ← whole, missing]
    · rw [opened front (Location.under_dropLast under whole)] at missing
      cases missing

theorem hasPlace_of_opened (named : path.fileName? ≠ none) (opened : system.Opened path state) :
    system.hasPlace state path = true := by
  have isDirectory : system.follow state system.directory path.components.dropLast =
      some (some .directory) := by
    have clear : ∀ front component rest, path.components.dropLast = front ++ component :: rest →
        FileEntry.content (system.stands state (Location.along system.directory front)) =
          none := by
      intro front component rest shape
      rw [opened front (shape ▸ List.prefix_append _ _)]
      rfl
    rcases system.follow_eq clear with found | ⟨-, front, under, missing⟩
    · rw [found, opened _ List.prefix_rfl]
    · rw [opened front under] at missing
      cases missing
  rw [hasPlace, isDirectory, Option.isSome_iff_ne_none.2 named]
  rfl

theorem isBarred_eq_false
    (clear : ∀ place, system.Passes path place →
      FileEntry.content (system.stands state place) = none) :
    system.isBarred state path = false := by
  refine List.any_eq_false.2 fun front mem => ?_
  rw [clear _ ⟨front, (List.mem_inits _ _).1 mem, rfl⟩]
  exact Bool.false_ne_true

end FileSystem

namespace Disk

variable {σ α β : Type} (disk : Disk σ) {state : σ} {file draft : Path} {bytes : List UInt8}
  {base : Location → Option FileEntry}

/-- What is found at the end of a straight way on which there is no file. -/
theorem find_eq {path : Path} (straight : disk.Straight state path.components)
    (clear : ∀ front component rest, path.components = front ++ component :: rest →
      FileEntry.content (disk.stands state (Location.along disk.directory front)) = none) :
    disk.find state path = some (disk.stands state (disk.leads path)) := by
  rcases disk.follow_eq clear with found | ⟨found, front, under, missing⟩
  · exact found
  · rw [disk.missing_of_passes straight ⟨front, under, rfl⟩ missing]
    exact found

/-- In a run everything is granted that can be granted when it is asked for. -/
def Calm : Program Host α → σ → Prop
  | .done _, _ => True
  | .ask request next, state =>
    disk.Grants state request ∧
      Calm (next (disk.told request state)) (disk.after request state)

instance Calm.decidable : (program : Program Host α) → (state : σ) →
    Decidable (disk.Calm program state)
  | .done _, _ => .isTrue trivial
  | .ask request next, state =>
    @instDecidableAnd _ _ (disk.decidableGrants state request)
      (Calm.decidable (next (disk.told request state)) (disk.after request state))

theorem calm_ask {request : Host.Request} {next : Host.Answer request → Program Host α} :
    disk.Calm (.ask (I := Host) request next) state ↔
      disk.Grants state request ∧
        disk.Calm (next (disk.told request state)) (disk.after request state) :=
  Iff.rfl

theorem calm_done (value : α) : disk.Calm (.done (I := Host) value) state := trivial

attribute [irreducible] Calm

/-- A sequence is calm if its parts are. -/
theorem calm_bind {program : Program Host α} {next : α → Program Host β} :
    disk.Calm (program.bind next) state ↔
      disk.Calm program state ∧
        disk.Calm (next (program.run disk.handle state).1) (program.run disk.handle state).2 := by
  induction program generalizing state with
  | done value => exact ⟨fun calm => ⟨disk.calm_done value, calm⟩, And.right⟩
  | ask request rest ih =>
    refine disk.calm_ask.trans (Iff.trans ?_ (and_congr_left' disk.calm_ask.symm))
    rw [and_assoc]
    exact and_congr_right fun _ => ih _

/-! ## Calm replacements -/

/-- The directories on the way to a file are on the way to its temporary files, too. -/
theorem opened_temporary {file : Path} (ticket : Nat × UInt64) (named : file.fileName? ≠ none)
    (opened : disk.Opened file state) : disk.Opened (temporary file ticket) state := by
  obtain ⟨name, named⟩ := Option.ne_none_iff_exists'.1 named
  intro front under
  rw [components_temporary ticket named, List.dropLast_concat] at under
  exact opened front under

section

variable {ticket : Nat × UInt64} (named : file.fileName? ≠ none)
  (opened : ∀ front, front <+: file.components.dropLast →
    base (Location.along disk.directory front) = some .directory)
  (pending : disk.Pending file (temporary file ticket) base state)

include opened pending

/-- A temporary file is in nobody's way. -/
theorem opened_of_pending : disk.Opened file state := by
  intro front under
  rw [pending.others, opened front under]
  intro same
  have isDirectory := opened front under
  rw [same, pending.free] at isDirectory
  cases isDirectory

include named

/-- A temporary file that is there is found. -/
theorem find_of_pending {old : List UInt8}
    (stands : disk.stands state (disk.leads (temporary file ticket)) = some (.file old)) :
    disk.find state (temporary file ticket) = some (some (.file old)) := by
  have way := disk.opened_temporary ticket named (disk.opened_of_pending opened pending)
  rw [disk.find_of_opened way, stands]

end

/-- The bytes of a temporary file come into the file's place if nothing is refused. -/
theorem ok_of_calm_finish (named : file.fileName? ≠ none)
    (opened : ∀ front, front <+: file.components.dropLast →
      base (Location.along disk.directory front) = some .directory)
    (noDirectory : base (disk.leads file) ≠ some .directory)
    (pending : disk.Pending file draft base state)
    (made : ∃ old, disk.stands state (disk.leads draft) = some (.file old))
    (calm : disk.Calm (finish draft file bytes).run state) :
    ((finish draft file bytes).run.run disk.handle state).1 = .ok () := by
  obtain ⟨ticket, rfl⟩ := pending.ours
  let draft := temporary file ticket
  obtain ⟨old, made⟩ := made
  obtain ⟨grantsWrite, calm⟩ := disk.calm_ask.1 (show disk.Calm (.ask (I := Host)
    (.write draft bytes) (ExceptT.bindCont fun _ => Host.sync draft >>= fun _ =>
      Host.rename draft file)) state from calm)
  have wrote : disk.told (.write draft bytes) state = Except.ok () :=
    grantsWrite _ (by rw [FileSystem.due, disk.find_of_pending named opened pending made])
  obtain ⟨new, written⟩ := disk.write_here made bytes
  have pending := pending.kept fun _ => disk.write_other draft bytes state
  rw [wrote] at calm
  obtain ⟨grantsSync, calm⟩ := disk.calm_ask.1 (show disk.Calm (.ask (I := Host) (.sync draft)
    (ExceptT.bindCont fun _ => Host.rename draft file)) (disk.after (.write draft bytes) state)
      from calm)
  have synced : disk.told (.sync draft) (disk.after (.write draft bytes) state) = Except.ok () :=
    grantsSync _ (by rw [FileSystem.due, disk.find_of_pending named opened pending written])
  have onDisk := disk.sync_ok synced (disk.write_ok wrote)
  have pending := pending.kept fun _ =>
    disk.sync_other draft (disk.after (.write draft bytes) state)
  rw [synced] at calm
  obtain ⟨grantsRename, -⟩ := disk.calm_ask.1 (show disk.Calm (.ask (I := Host)
    (.rename draft file) .done) (disk.after (.sync draft) (disk.after (.write draft bytes) state))
      from calm)
  have renamed : disk.told (.rename draft file)
      (disk.after (.sync draft) (disk.after (.write draft bytes) state)) = Except.ok () := by
    refine grantsRename _ ?_
    have goal : disk.stands (disk.after (.sync draft) (disk.after (.write draft bytes) state))
        (disk.leads file) ≠ some .directory := by
      rwa [pending.others _ pending.beside.symm]
    rw [FileSystem.due, disk.find_of_pending named opened pending onDisk,
      disk.hasPlace_of_opened named (disk.opened_of_pending opened pending)]
    exact if_pos (by simpa using goal)
  have first : Attempt.Runs disk.handle (Host.write draft bytes) state (.ok ()) _ :=
    Prod.ext wrote rfl
  have second : Attempt.Runs disk.handle (Host.sync draft) _ (.ok ()) _ := Prod.ext synced rfl
  have third : Attempt.Runs disk.handle (Host.rename draft file) _ (.ok ()) _ :=
    Prod.ext renamed rfl
  exact congrArg Prod.fst
    (Attempt.runs_bind_ok.2 ⟨(), _, first, Attempt.runs_bind_ok.2 ⟨(), _, second, third⟩⟩)

/-- That a name is taken is no failure. -/
theorem grants_of_taken {path : Path}
    (told : disk.told (.createNew path) state = Except.error Fault.alreadyExists) :
    disk.Grants state (.createNew path) := by
  obtain ⟨entry, there⟩ := Option.ne_none_iff_exists'.1 (disk.create_taken told)
  intro answer isDue
  rw [FileSystem.due, there] at isDue
  split at isDue
  · exact told.trans (Option.some.inj isDue)
  · cases isDue

/-- Where every name is taken, and stays so, a search is calm, and does not end. -/
theorem calm_of_taken (rounds : Nat)
    (taken : ∀ later, disk.stands later = disk.stands state → ∀ number,
      disk.told (.createNew (temporary file (disk.process, number))) later =
        Except.error Fault.alreadyExists) :
    disk.Calm (withFreeName file bytes rounds).run state := by
  induction rounds generalizing state with
  | zero => exact disk.calm_done _
  | succ rounds ih =>
    have looked := disk.looks .ticket trivial state
    have told := taken _ looked (disk.serial state)
    have goesOn : disk.Calm (withFreeName file bytes rounds).run (disk.after
        (.createNew (temporary file (disk.process, disk.serial state)))
          (disk.after .ticket state)) :=
      ih fun later same => taken later (same.trans ((disk.create_error told).trans looked))
    rw [run_withFreeName_succ]
    refine disk.calm_ask.2 ⟨nofun, ?_⟩
    rw [disk.ticket state]
    refine disk.calm_ask.2 ⟨disk.grants_of_taken told, ?_⟩
    rwa [told]

/-- A temporary file that was made comes calmly to its end. -/
theorem run_goOn_of_calm {rounds : Nat} (named : file.fileName? ≠ none)
    (opened : disk.Opened file state)
    (noDirectory : disk.stands state (disk.leads file) ≠ some .directory)
    (told : disk.told (.createNew (temporary file (disk.process, disk.serial state)))
      (disk.after .ticket state) = Except.ok ())
    (calm : disk.Calm
      (goOn file bytes rounds (temporary file (disk.process, disk.serial state)) (.ok ()))
        (disk.after (.createNew (temporary file (disk.process, disk.serial state)))
          (disk.after .ticket state))) :
    ((goOn file bytes rounds (temporary file (disk.process, disk.serial state)) (.ok ())).run
      disk.handle (disk.after (.createNew (temporary file (disk.process, disk.serial state)))
        (disk.after .ticket state))).1 = .ok true := by
  let draft := temporary file (disk.process, disk.serial state)
  let next := disk.after (.createNew draft) (disk.after .ticket state)
  have pending := disk.pending_of_created (disk.looks .ticket trivial state) told
  have made : disk.stands next (disk.leads draft) = some (.file []) := by
    rw [(disk.create_ok told).2.2, Function.update_self]
  have calmFinish : disk.Calm (finish draft file bytes).run next := by
    have whole : disk.Calm (finishOrRemove draft file bytes).run next :=
      (disk.calm_bind.1 calm).1
    rw [finishOrRemove, Attempt.run_result_bind] at whole
    exact (disk.calm_bind.1 whole).1
  have finished : ((finishOrRemove draft file bytes).run.run disk.handle next).1 = .ok () := by
    rw [finishOrRemove, Attempt.run_result_bind, Program.run_bind,
      disk.ok_of_calm_finish named opened noDirectory pending ⟨[], made⟩ calmFinish]
    rfl
  rw [run_goOn_made, finished]
  rfl

/-- A calm search does not fail. -/
theorem not_error_of_calm_search {rounds : Nat} (named : file.fileName? ≠ none)
    (opened : disk.Opened file state)
    (noDirectory : disk.stands state (disk.leads file) ≠ some .directory)
    (calm : disk.Calm (withFreeName file bytes rounds).run state) (fault : Fault) :
    ((withFreeName file bytes rounds).run.run disk.handle state).1 ≠ .error fault := by
  induction rounds generalizing state with
  | zero =>
    intro same
    cases same
  | succ rounds ih =>
    let draft := temporary file (disk.process, disk.serial state)
    let asked := disk.after .ticket state
    let next := disk.after (.createNew draft) asked
    have looked : disk.stands asked = disk.stands state := disk.looks .ticket trivial state
    have way : disk.Opened file asked := fun front under => by rw [looked, opened front under]
    rw [(disk.withFreeName_succ file bytes rounds state).1]
    obtain ⟨grants, calm⟩ : disk.Grants asked (.createNew draft) ∧
        disk.Calm (goOn file bytes rounds draft (disk.told (.createNew draft) asked)) next := by
      rw [run_withFreeName_succ] at calm
      have rest := (disk.calm_ask.1 calm).2
      rw [disk.ticket state] at rest
      exact disk.calm_ask.1 rest
    obtain ⟨name, isName⟩ := Option.ne_none_iff_exists'.1 named
    have hasPlace : disk.hasPlace asked draft = true :=
      disk.hasPlace_of_opened (Option.ne_none_iff_exists'.2 ⟨_, fileName?_temporary _ isName⟩)
        (disk.opened_temporary _ named way)
    cases free : disk.stands asked (disk.leads draft) with
    | none =>
      have told : disk.told (.createNew draft) asked = Except.ok () :=
        grants _ (by rw [FileSystem.due, hasPlace, free]; rfl)
      rw [told] at calm ⊢
      rw [disk.run_goOn_of_calm named opened noDirectory told calm]
      intro same
      cases same
    | some entry =>
      have told : disk.told (.createNew draft) asked = Except.error Fault.alreadyExists :=
        grants _ (by rw [FileSystem.due, hasPlace, free]; rfl)
      have same : disk.stands next = disk.stands state := (disk.create_error told).trans looked
      rw [told] at calm ⊢
      have way : disk.Opened file next := fun front under => by rw [same, opened front under]
      exact ih way (by rwa [same]) calm

/-- A calm replacement of a file does not fail where its directories can be made and no directory
is in its place. -/
theorem not_error_of_calm {rounds : Nat} (named : file.fileName? ≠ none)
    (straight : disk.Straight state file.components)
    (clear : ∀ directory place, file.parent? = some directory → disk.Passes directory place →
      FileEntry.content (disk.stands state place) = none)
    (noDirectory : disk.stands state (disk.leads file) ≠ some .directory)
    (calm : disk.Calm (within rounds file bytes).run state) (fault : Fault) :
    ((within rounds file bytes).run.run disk.handle state).1 ≠ .error fault := by
  obtain ⟨name, isName⟩ := Option.ne_none_iff_exists'.1 named
  obtain ⟨directory, inner, shape⟩ :=
    Path.components_parent (Path.fileName?_eq_some.1 isName) nofun
  let next := disk.after (.makeDirectories directory) state
  rw [run_within_of_parent inner] at calm ⊢
  obtain ⟨grants, calm⟩ := disk.calm_ask.1 calm
  have made : disk.told (.makeDirectories directory) state = Except.ok () := by
    have open' := disk.isBarred_eq_false fun place => clear directory place inner
    exact grants _ (by rw [FileSystem.due, open']; rfl)
  rw [made] at calm
  have ran : (Program.ask (I := Host) (.makeDirectories directory)
      (ExceptT.bindCont fun _ => withFreeName file bytes rounds)).run disk.handle state =
      (ExceptT.bindCont (fun _ => withFreeName file bytes rounds)
        (disk.told (.makeDirectories directory) state : Except Fault Unit)).run disk.handle
          next := rfl
  rw [ran, made]
  have way : disk.Opened file next := by
    intro front under
    rw [shape, List.dropLast_concat] at under
    exact disk.make_ok made ⟨front, under, rfl⟩
  have kept : disk.stands next (disk.leads file) = disk.stands state (disk.leads file) :=
    disk.grown_beside named straight (disk.grown_of_made inner state) le_rfl
  exact disk.not_error_of_calm_search named way (by rwa [kept]) calm fault

/-- A calm search through more names than were left over ends well. -/
theorem within_eq_ok_of_calm {rounds : Nat} (named : file.fileName? ≠ none)
    (straight : disk.Straight state file.components)
    (clear : ∀ directory place, file.parent? = some directory → disk.Passes directory place →
      FileEntry.content (disk.stands state place) = none)
    (noDirectory : disk.stands state (disk.leads file) ≠ some .directory)
    (leftover : Finset Location) (few : leftover.card < numbers) (enough : leftover.card < rounds)
    (listed : ∀ number,
      disk.stands state (disk.leads (temporary file (disk.process, number))) ≠ none →
      disk.leads (temporary file (disk.process, number)) ∈ leftover)
    (calm : disk.Calm (within rounds file bytes).run state) :
    ((within rounds file bytes).run.run disk.handle state).1 = .ok true := by
  have bounded : disk.Bounded rounds file bytes state leftover.card := by
    refine disk.bounded_of_leftover rounds bytes named leftover few fun number notFree => ?_
    exact listed number fun missing => notFree (disk.free_of_missing named straight missing)
  have ended := bounded.2 enough
  have granted := disk.not_error_of_calm named straight clear noDirectory calm
  cases told : ((within rounds file bytes).run.run disk.handle state).1 with
  | error fault => exact absurd told (granted fault)
  | ok free =>
    cases free with
    | false => exact absurd told ended
    | true => rfl

/-- A calm replacement succeeds where fewer files were left over than there are numbers. -/
theorem ok_of_calm (named : file.fileName? ≠ none)
    (straight : disk.Straight state file.components)
    (clear : ∀ directory place, file.parent? = some directory → disk.Passes directory place →
      FileEntry.content (disk.stands state place) = none)
    (noDirectory : disk.stands state (disk.leads file) ≠ some .directory)
    (leftover : Finset Location) (few : leftover.card < numbers)
    (listed : ∀ number,
      disk.stands state (disk.leads (temporary file (disk.process, number))) ≠ none →
      disk.leads (temporary file (disk.process, number)) ∈ leftover)
    (calm : disk.Calm (run file bytes).run state) :
    ((run file bytes).run.run disk.handle state).1 = .ok () := by
  rw [run_eq, calm_bind] at calm
  rw [run_run, settle_eq_ok]
  exact disk.within_eq_ok_of_calm named straight clear noDirectory leftover few few listed calm.1

end Disk

end LocaleWatch
