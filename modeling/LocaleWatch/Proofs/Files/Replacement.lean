import LocaleWatch.Proofs.Files.Attempts
import LocaleWatch.Proofs.Files.Machine
import LocaleWatch.Proofs.Files.Names
import LocaleWatch.Proofs.Program.Triple
import Mathlib.Data.Finset.Preimage

/-!
# Files are replaced whole

Between any two requests of a replacement the disk is in one of three states: nothing differs from
before but for new directories; a temporary file was made beside the file and nothing else differs;
or the file has the new bytes and the temporary file is gone. No file is torn in any of them. A
process that is stopped within a request leaves what the request leaves when it is granted or
refused, so it is enough to stop runs between two requests.

The search for a free name has no bound of its own. Every file with a name has as many temporary
names as there are numbers, and they are tried in turn, so that files that were left over are
passed one by one as long as there are fewer of them than numbers. A path without a file name, such
as `..`, has only itself as a temporary name, and its search never ends.

Files are spoken of by the places to which their paths lead. A replacement makes directories, and a
path that led nowhere before, such as `missing/../file`, may lead to an old file then.

## Main results

* `Disk.triple_finish` — the bytes of a temporary file come into the file's place at once.
* `Disk.stage_runFor` — where a replacement is when it is stopped.
* `Disk.bounded_within` — a free name is found as soon as its number comes.
* `Disk.not_ok_of_searching` — who has found the names of all numbers taken never finds a free one.
* `Disk.unended_of_taken` — where every name is taken, and stays so, a search does not end.
* `Disk.replacement_atomic` — what holds of replacements, all together.
* `Disk.replacement_unended` — searches that never end, and a path that leads elsewhere afterwards.
-/

namespace LocaleWatch

open Replacement Text

/-! ## Places of temporary files -/

namespace FileSystem

variable {σ : Type} (system : FileSystem σ) {file : Path} {name : List UInt8}

/-- A file lies in its directory under its name. -/
theorem leads_named (named : file.fileName? = some name) :
    system.leads file =
      Location.along system.directory file.components.dropLast ++ [name] := by
  have last := Path.fileName?_eq_some.1 named
  have shape : file.components = file.components.dropLast ++ [.name name] := by
    obtain ⟨front, shape⟩ := List.getLast?_eq_some_iff.1 last
    rw [shape, List.dropLast_concat]
  rw [leads, shape, Location.along_name, List.dropLast_concat]

/-- A temporary file lies in the same directory. -/
theorem leads_temporary (ticket : Nat × UInt64) (named : file.fileName? = some name) :
    system.leads (temporary file ticket) =
      Location.along system.directory file.components.dropLast ++
        [temporaryName name ticket] := by
  rw [leads, components_temporary ticket named, Location.along_name]

theorem leads_temporary_ne (ticket : Nat × UInt64) (named : file.fileName? = some name) :
    system.leads (temporary file ticket) ≠ system.leads file := by
  rw [system.leads_temporary ticket named, system.leads_named named]
  intro same
  exact temporaryName_ne ticket (List.singleton_inj.1 (List.append_cancel_left same))

end FileSystem

namespace Disk

variable {σ : Type} (disk : Disk σ) {file draft : Path} {bytes : List UInt8}
  {base : Location → Option FileEntry}

/-! ## What a replacement leaves -/

/-- A temporary file is there, beside its file, and nothing else differs from before. -/
structure Pending (file draft : Path) (base : Location → Option FileEntry) (state : σ) :
    Prop where
  ours : ∃ ticket, draft = temporary file ticket
  free : base (disk.leads draft) = none
  beside : disk.leads draft ≠ disk.leads file
  others : ∀ location, location ≠ disk.leads draft →
    disk.stands state location = base location

/-- The file holds the new bytes, and nothing else differs from before. -/
structure Replaced (file : Path) (bytes : List UInt8) (base : Location → Option FileEntry)
    (state : σ) : Prop where
  noDirectory : base (disk.leads file) ≠ some .directory
  stands : disk.stands state = Function.update base (disk.leads file) (some (.file bytes))

/-- The file holds what it held before or the new bytes, each other file holds what it held, and
no file is new but a temporary one. -/
structure Untorn (file : Path) (bytes : List UInt8) (before : Location → Option (List UInt8))
    (state : σ) : Prop where
  whole : disk.files state (disk.leads file) = before (disk.leads file) ∨
    disk.files state (disk.leads file) = some bytes
  others : ∀ location, location ≠ disk.leads file →
    disk.files state location = before location ∨
      before location = none ∧ ∃ ticket, location = disk.leads (temporary file ticket)

/-- Where a replacement is between two requests. -/
inductive Stage (file : Path) (bytes : List UInt8) (base : Location → Option FileEntry)
    (state : σ) : Prop where
  | before (same : disk.stands state = base)
  | pending {draft : Path} (pending : disk.Pending file draft base state)
  | replaced (replaced : disk.Replaced file bytes base state)

variable {disk}

/-- A temporary file stays while nothing else changes. -/
theorem Pending.kept {state later : σ} (pending : disk.Pending file draft base state)
    (others : ∀ location, location ≠ disk.leads draft →
      disk.stands later location = disk.stands state location) :
    disk.Pending file draft base later :=
  ⟨pending.ours, pending.free, pending.beside, fun location other =>
    (others location other).trans (pending.others location other)⟩

theorem Replaced.files {state : σ} (replaced : disk.Replaced file bytes base state) :
    disk.files state =
      Function.update (FileEntry.content ∘ base) (disk.leads file) (some bytes) := by
  funext location
  rw [FileSystem.files, replaced.stands]
  by_cases here : location = disk.leads file
  · rw [here, Function.update_self, Function.update_self]
    rfl
  · rw [Function.update_of_ne here, Function.update_of_ne here, Function.comp_apply]

/-- No file is torn in any stage. -/
theorem Stage.untorn {state : σ} (stage : disk.Stage file bytes base state) :
    disk.Untorn file bytes (FileEntry.content ∘ base) state := by
  cases stage with
  | before same =>
    subst same
    exact ⟨.inl rfl, fun _ _ => .inl rfl⟩
  | @pending draft pending =>
    constructor
    · exact .inl (congrArg FileEntry.content (pending.others _ pending.beside.symm))
    · intro location _
      by_cases here : location = disk.leads draft
      · obtain ⟨ticket, rfl⟩ := pending.ours
        subst here
        exact .inr ⟨congrArg FileEntry.content pending.free, ticket, rfl⟩
      · exact .inl (congrArg FileEntry.content (pending.others location here))
  | replaced replaced =>
    constructor
    · exact .inr (by rw [replaced.files, Function.update_self])
    · exact fun location other => .inl (by rw [replaced.files, Function.update_of_ne other])

variable (disk)

/-! ## After a temporary file was made -/

/-- A state whose events are written down. -/
abbrev Recorded (σ : Type) : Type := σ × List (Event Host)

/-- Writing, syncing and renaming a temporary file puts the new bytes in the file's place, and
changes nothing but the temporary file if it fails. -/
theorem triple_finish :
    Attempt.Triple (Program.logged disk.handle)
      (fun state => disk.Pending file draft base state.1)
      (fun state => disk.Pending file draft base state.1) (finish draft file bytes)
      (fun _ state => disk.Replaced file bytes base state.1) := by
  let pending (state : Recorded σ) : Prop := disk.Pending file draft base state.1
  have wrote : Attempt.Triple (Program.logged disk.handle) pending pending
      (Host.write draft bytes) fun _ state =>
        pending state ∧ disk.written state.1 (disk.leads draft) = some bytes := by
    have kept (state : Recorded σ) (holds : pending state) :
        disk.Pending file draft base (disk.after (.write draft bytes) state.1) :=
      Pending.kept holds fun _ => disk.write_other draft bytes state.1
    exact Attempt.Triple.ofResult (I := Host) (.write draft bytes) id (fun _ holds => holds)
      (fun state _ holds told => ⟨kept state holds, disk.write_ok told⟩)
      (fun state _ holds _ => kept state holds)
  have synced : Attempt.Triple (Program.logged disk.handle) pending
      (fun state => pending state ∧ disk.written state.1 (disk.leads draft) = some bytes)
      (Host.sync draft) fun _ state =>
        pending state ∧ disk.stands state.1 (disk.leads draft) = some (.file bytes) := by
    have kept (state : Recorded σ) (holds : pending state) :
        disk.Pending file draft base (disk.after (.sync draft) state.1) :=
      Pending.kept holds fun _ => disk.sync_other draft state.1
    exact Attempt.Triple.ofResult (I := Host) (.sync draft) id (fun _ holds => holds.1)
      (fun state _ holds told => ⟨kept state holds.1, disk.sync_ok told holds.2⟩)
      (fun state _ holds _ => kept state holds.1)
  have renamed : Attempt.Triple (Program.logged disk.handle) pending
      (fun state => pending state ∧
        disk.stands state.1 (disk.leads draft) = some (.file bytes))
      (Host.rename draft file) fun _ state => disk.Replaced file bytes base state.1 := by
    refine Attempt.Triple.ofResult (I := Host) (.rename draft file) id (fun _ holds => holds.1)
      ?_ ?_
    · rintro ⟨state, events⟩ value ⟨⟨-, free, beside, others⟩, holds⟩ told
      obtain ⟨noDirectory, moved⟩ := disk.rename_ok told holds beside
      have restored : Function.update (disk.stands state) (disk.leads draft) none = base := by
        funext location
        by_cases same : location = disk.leads draft
        · rw [same, Function.update_self, free]
        · rw [Function.update_of_ne same, others location same]
      have noDirectory : base (disk.leads file) ≠ some .directory := by
        rwa [← others _ beside.symm]
      exact ⟨noDirectory, moved.trans (by rw [restored])⟩
    · rintro ⟨state, events⟩ fault ⟨holds, -⟩ told
      exact Pending.kept holds fun location _ => congrFun (disk.rename_error told) location
  exact wrote.bind fun _ => synced.bind fun _ => renamed

/-- A failure leaves everything as before, or a temporary file that could not be removed. -/
def Undone (file : Path) (base : Location → Option FileEntry) (state : Recorded σ) : Prop :=
  disk.stands state.1 = base ∨
    ∃ draft fault, disk.Pending file draft base state.1 ∧
      .removed draft (.error fault) ∈ state.2

/-- What holds of a replacement that was followed to a result. -/
def Ended (file : Path) (bytes : List UInt8) (base : Location → Option FileEntry) :
    Except Fault Bool → Recorded σ → Prop
  | .ok true, state => disk.Replaced file bytes base state.1
  | .ok false, state => disk.stands state.1 = base
  | .error _, state => disk.Undone file base state

/-- A replacement whose temporary file was made ends well, or removes that file. -/
theorem meets_finishOrRemove {state : Recorded σ}
    (pending : disk.Pending file draft base state.1) :
    Program.Meets (Program.logged disk.handle) (fun state => disk.Stage file bytes base state.1)
      (finishOrRemove draft file bytes).run state fun told =>
        disk.Ended file bytes base (told.map fun _ => true) := by
  have finished : Program.Meets (Program.logged disk.handle)
      (fun state => disk.Stage file bytes base state.1) (finish draft file bytes).run state _ :=
    (disk.triple_finish state pending).throughout fun state pending => .pending pending
  rw [finishOrRemove, Attempt.run_result_bind]
  refine Program.meets_bind.2 (finished.mono ?_)
  rintro (fault | value) ⟨state, events⟩ holds
  · refine ⟨.pending holds, ?_⟩
    show disk.Undone file base (disk.after (.remove draft) state,
      events ++ [.removed draft (disk.told (.remove draft) state)])
    cases told : (disk.told (.remove draft) state : Except Fault Unit) with
    | ok value =>
      refine .inl ((disk.remove_ok told).2.trans (funext fun location => ?_))
      by_cases same : location = disk.leads draft
      · rw [same, Function.update_self, holds.free]
      · rw [Function.update_of_ne same, holds.others location same]
    | error fault =>
      refine .inr ⟨draft, fault, ?_, List.mem_append_right _ List.mem_cons_self⟩
      exact Pending.kept holds fun location _ => congrFun (disk.remove_error told) location
  · exact holds

/-! ## The search for a free name -/

/-- A temporary file that was made lies in a free place beside its file. -/
theorem pending_of_created {state : σ} {ticket : Nat × UInt64} (same : disk.stands state = base)
    (told : disk.told (.createNew (temporary file ticket)) state = Except.ok ()) :
    disk.Pending file (temporary file ticket) base
      (disk.after (.createNew (temporary file ticket)) state) := by
  obtain ⟨isNamed, free, stands⟩ := disk.create_ok told
  cases named : file.fileName? with
  | none => exact absurd ((temporary_of_nameless ticket named).symm ▸ named) isNamed
  | some name =>
    refine ⟨⟨ticket, rfl⟩, same ▸ free, disk.leads_temporary_ne ticket named,
      fun location other => ?_⟩
    rw [stands, Function.update_of_ne other, same]

/-- Whatever names are tried, a replacement goes through its stages. -/
theorem meets_withFreeName (rounds : Nat) {state : Recorded σ}
    (same : disk.stands state.1 = base) :
    Program.Meets (Program.logged disk.handle) (fun state => disk.Stage file bytes base state.1)
      (withFreeName file bytes rounds).run state (disk.Ended file bytes base) := by
  induction rounds generalizing state with
  | zero => exact same
  | succ rounds ih =>
    obtain ⟨state, events⟩ := state
    let draft := temporary file (disk.told .ticket state)
    have same' : disk.stands (disk.after .ticket state) = base :=
      (disk.looks .ticket trivial state).trans same
    rw [run_withFreeName_succ]
    refine ⟨.before same, .before same', ?_⟩
    show Program.Meets _ _ (goOn file bytes rounds draft
        (disk.told (.createNew draft) (disk.after .ticket state)))
      (disk.after (.createNew draft) (disk.after .ticket state), _) _
    cases told : (disk.told (.createNew draft) (disk.after .ticket state) :
        Except Fault Unit) with
    | ok value =>
      refine Program.meets_bind.2 (Program.Meets.mono (disk.meets_finishOrRemove ?_) ?_)
      · exact disk.pending_of_created same' told
      · rintro (fault | value) last ended <;> exact ended
    | error fault =>
      have same := (disk.create_error told).trans same'
      by_cases taken : fault = .alreadyExists
      · subst taken
        exact ih same
      · rw [goOn_error taken]
        exact .inl same

/-- A round of the search asks for the next number and tries its name. -/
theorem withFreeName_succ (file : Path) (bytes : List UInt8) (rounds : Nat) (state : σ) :
    let draft := temporary file (disk.process, disk.serial state)
    let asked := disk.after .ticket state
    let rest := goOn file bytes rounds draft (disk.told (.createNew draft) asked)
    (withFreeName file bytes (rounds + 1)).run.run disk.handle state =
        rest.run disk.handle (disk.after (.createNew draft) asked) ∧
      (withFreeName file bytes (rounds + 1)).run.trace disk.handle state =
        .ticketed (disk.process, disk.serial state) ::
          .created draft (disk.told (.createNew draft) asked) ::
            rest.trace disk.handle (disk.after (.createNew draft) asked) := by
  rw [run_withFreeName_succ, ← disk.ticket state]
  exact ⟨rfl, rfl⟩

/-- A name that is free is found as soon as its number comes. -/
theorem tries_withFreeName (bytes : List UInt8) (rounds ahead : Nat) {state : σ}
    (free : disk.stands state (disk.leads
      (temporary file (disk.process, disk.serial state + UInt64.ofNat ahead))) = none) :
    ((withFreeName file bytes rounds).run.trace disk.handle state).countP Event.tries ≤ ahead + 1 ∧
      (ahead < rounds →
        ((withFreeName file bytes rounds).run.run disk.handle state).1 ≠ .ok false) := by
  induction rounds generalizing ahead state with
  | zero => exact ⟨Nat.zero_le _, fun few => absurd few (Nat.not_lt_zero _)⟩
  | succ rounds ih =>
    obtain ⟨ran, traced⟩ := disk.withFreeName_succ file bytes rounds state
    let draft := temporary file (disk.process, disk.serial state)
    let asked := disk.after .ticket state
    let next := disk.after (.createNew draft) asked
    have looked : disk.stands asked = disk.stands state := disk.looks .ticket trivial state
    rw [ran, traced, List.countP_cons_of_neg Bool.false_ne_true, List.countP_cons_of_pos rfl]
    cases told : (disk.told (.createNew draft) asked : Except Fault Unit) with
    | ok value =>
      exact ⟨(goOn_made disk.handle next).1 ▸ Nat.succ_le_succ (Nat.zero_le _),
        fun _ => (goOn_made disk.handle next).2⟩
    | error fault =>
      by_cases taken : fault = .alreadyExists
      · subst taken
        cases ahead with
        | zero =>
          refine absurd ?_ (disk.create_taken told)
          rw [looked]
          rwa [show UInt64.ofNat 0 = 0 from rfl, UInt64.add_zero] at free
        | succ ahead =>
          have counted : disk.serial next = disk.serial state + 1 :=
            (disk.serial_other (.createNew draft) nofun asked).trans (disk.serial_ticket state)
          have later : disk.serial next + UInt64.ofNat ahead =
              disk.serial state + UInt64.ofNat (ahead + 1) := by
            rw [counted, UInt64.ofNat_add, UInt64.add_assoc, UInt64.add_comm 1]
            rfl
          have freeLater : disk.stands next (disk.leads (temporary file
              (disk.process, disk.serial next + UInt64.ofNat ahead))) = none := by
            rw [later, disk.create_error told, looked, free]
          obtain ⟨few, ended⟩ := ih ahead freeLater
          exact ⟨Nat.succ_le_succ few, fun enough => ended (Nat.lt_of_succ_lt_succ enough)⟩
      · rw [goOn_error taken]
        exact ⟨Nat.succ_le_succ (Nat.zero_le _), fun _ => nofun⟩

/-- Among fewer names that are taken than there are numbers, a free one comes soon. -/
theorem exists_free (taken : Finset UInt64) (first : UInt64) (few : taken.card < numbers) :
    ∃ ahead ≤ taken.card, first + UInt64.ofNat ahead ∉ taken := by
  by_contra none
  push Not at none
  have within : ∀ ahead ∈ Finset.range (taken.card + 1), first + UInt64.ofNat ahead ∈ taken :=
    fun ahead mem => none ahead (Nat.le_of_lt_succ (Finset.mem_range.1 mem))
  have apart : Set.InjOn (fun ahead => first + UInt64.ofNat ahead)
      (Finset.range (taken.card + 1)) := by
    intro one isOne two isTwo same
    have numbered : (UInt64.ofNat one).toNat = (UInt64.ofNat two).toNat :=
      congrArg UInt64.toNat ((UInt64.add_right_inj first).1 same)
    have low {n : Nat} (mem : n ∈ (Finset.range (taken.card + 1) : Set Nat)) : n < 2 ^ 64 :=
      (Nat.le_of_lt_succ (Finset.mem_range.1 mem)).trans_lt few
    rwa [UInt64.toNat_ofNat_of_lt' (low isOne), UInt64.toNat_ofNat_of_lt' (low isTwo)] at numbered
  have many := Finset.card_le_card_of_injOn _ within apart
  rw [Finset.card_range] at many
  omega

end Disk

/-! ## The whole replacement -/

namespace FileSystem

variable {σ : Type} (system : FileSystem σ)

/-- Whether a location is on the way to the directory of a file. -/
def OnWay (file : Path) (location : Location) : Prop :=
  ∃ directory, file.parent? = some directory ∧ system.Passes directory location

/-- Whether nothing is in the way of a new file beside another. -/
def Free (file : Path) (state : σ) (location : Location) : Prop :=
  system.stands state location = none ∧ ¬ system.OnWay file location

/-- What stands where after directories were made on the way to a file. -/
def Grown (file : Path) (state : σ) (base : Location → Option FileEntry) : Prop :=
  ∀ location, base location = system.stands state location ∨
    system.stands state location = none ∧ base location = some .directory ∧
      system.OnWay file location

variable {system}

/-- New directories change no file. -/
theorem Grown.content {file : Path} {state : σ} {base : Location → Option FileEntry}
    (grown : system.Grown file state base) : FileEntry.content ∘ base = system.files state := by
  funext location
  rcases grown location with same | ⟨free, made, -⟩
  · exact congrArg FileEntry.content same
  · rw [Function.comp_apply, made, files, free]
    rfl

/-- They replace no directory. -/
theorem Grown.directory {file : Path} {state : σ} {base : Location → Option FileEntry}
    (grown : system.Grown file state base) {location : Location}
    (there : system.stands state location = some .directory) :
    base location = some .directory := by
  rcases grown location with same | ⟨-, made, -⟩
  · exact same.trans there
  · exact made

end FileSystem

namespace Disk

variable {σ : Type} (disk : Disk σ) {file : Path} {bytes : List UInt8}

theorem grown_refl (file : Path) (state : σ) : disk.Grown file state (disk.stands state) :=
  fun _ => .inl rfl

theorem grown_of_made {directory : Path} (inner : file.parent? = some directory) (state : σ) :
    disk.Grown file state (disk.stands (disk.after (.makeDirectories directory) state)) := by
  intro location
  rcases disk.make directory state location with same | ⟨free, made, passes⟩
  · exact .inl same
  · exact .inr ⟨free, made, directory, inner, passes⟩

/-- A replacement makes directories and goes through its stages then. -/
theorem meets_within (rounds : Nat) (file : Path) (bytes : List UInt8) (state : σ) :
    Program.Meets (Program.logged disk.handle)
      (fun later => ∃ base, disk.Grown file state base ∧ disk.Stage file bytes base later.1)
      (within rounds file bytes).run (state, []) fun result last =>
        ∃ base, disk.Grown file state base ∧ disk.Ended file bytes base result last := by
  have goesOn (prepared : Recorded σ) (grown : disk.Grown file state (disk.stands prepared.1)) :
      Program.Meets (Program.logged disk.handle)
        (fun later => ∃ base, disk.Grown file state base ∧ disk.Stage file bytes base later.1)
        (withFreeName file bytes rounds).run prepared fun result last =>
          ∃ base, disk.Grown file state base ∧ disk.Ended file bytes base result last :=
    ((disk.meets_withFreeName rounds rfl).throughout fun _ stage => ⟨_, grown, stage⟩).mono
      fun _ _ ended => ⟨_, grown, ended⟩
  cases inner : file.parent? with
  | none =>
    rw [run_within_of_top inner]
    exact goesOn _ (disk.grown_refl file state)
  | some directory =>
    have grown := disk.grown_of_made inner state
    rw [run_within_of_parent inner]
    refine ⟨⟨_, disk.grown_refl file state, .before rfl⟩, ?_⟩
    show Program.Meets _ _ (ExceptT.bindCont (fun _ => withFreeName file bytes rounds)
      (disk.told (.makeDirectories directory) state : Except Fault Unit))
      (disk.after (.makeDirectories directory) state, _) _
    cases (disk.told (.makeDirectories directory) state : Except Fault Unit) with
    | ok value => exact goesOn _ grown
    | error fault => exact ⟨_, grown, .inl rfl⟩

/-- Wherever a replacement is stopped, and also at its end, it is in one of its stages. -/
theorem stage_runFor (rounds : Nat) (file : Path) (bytes : List UInt8) (state : σ) (count : Nat) :
    ∃ base, disk.Grown file state base ∧ disk.Stage file bytes base
      ((within rounds file bytes).run.runFor disk.handle count state).2 := by
  rw [← Program.runFor_logged disk.handle _ count state []]
  refine (disk.meets_within rounds file bytes state).runFor ?_ count
  rintro (fault | _ | _) later ⟨base, grown, ended⟩
  · rcases ended with same | ⟨draft, refusal, pending, -⟩
    · exact ⟨base, grown, .before same⟩
    · exact ⟨base, grown, .pending pending⟩
  · exact ⟨base, grown, .before ended⟩
  · exact ⟨base, grown, .replaced ended⟩

/-- Wherever a replacement is stopped, no file is torn. -/
theorem untorn_runFor (rounds : Nat) (file : Path) (bytes : List UInt8) (state : σ)
    (count : Nat) :
    disk.Untorn file bytes (disk.files state)
      ((within rounds file bytes).run.runFor disk.handle count state).2 := by
  obtain ⟨base, grown, stage⟩ := disk.stage_runFor rounds file bytes state count
  exact grown.content ▸ stage.untorn

/-- What a replacement that was followed to a result leaves. -/
theorem ended_within (rounds : Nat) (file : Path) (bytes : List UInt8) (state : σ) :
    ∃ base, disk.Grown file state base ∧
      disk.Ended file bytes base ((within rounds file bytes).run.run disk.handle state).1
        (((within rounds file bytes).run.run disk.handle state).2,
          (within rounds file bytes).run.trace disk.handle state) := by
  have ended := (disk.meets_within rounds file bytes state).run
  rwa [Program.run_logged, List.nil_append] at ended

/-- A replacement that succeeds has replaced the file. -/
theorem replaced_of_ok {file : Path} {bytes : List UInt8} {state : σ}
    (success : ((run file bytes).run.run disk.handle state).1 = .ok ()) :
    ∃ base, disk.Grown file state base ∧
      disk.Replaced file bytes base ((run file bytes).run.run disk.handle state).2 := by
  obtain ⟨base, grown, ended⟩ := disk.ended_within numbers file bytes state
  rw [run_run] at success ⊢
  rw [settle_eq_ok.1 success] at ended
  exact ⟨base, grown, ended⟩

/-- A replacement that does not succeed has done nothing, or a removal was refused. -/
theorem undone_of_error {file : Path} {bytes : List UInt8} {state : σ} {fault : Fault}
    (failure : ((run file bytes).run.run disk.handle state).1 = .error fault) :
    ∃ base, disk.Grown file state base ∧
      disk.Undone file base (((run file bytes).run.run disk.handle state).2,
        (within numbers file bytes).run.trace disk.handle state) := by
  obtain ⟨base, grown, ended⟩ := disk.ended_within numbers file bytes state
  rw [run_run] at failure ⊢
  rcases settle_eq_error.1 failure with told | ⟨told, -⟩
  · rw [told] at ended
    exact ⟨base, grown, ended⟩
  · rw [told] at ended
    exact ⟨base, grown, .inl ended⟩

/-! ## How long the search lasts -/

/-- A replacement cannot make its directories, or searches from where they were made. -/
theorem within_cases (file : Path) (bytes : List UInt8) (state : σ) :
    (∃ directory fault, ∀ rounds,
      ((within rounds file bytes).run.run disk.handle state).1 = .error fault ∧
        (within rounds file bytes).run.trace disk.handle state =
          [.directed directory (.error fault)]) ∨
    ∃ prepared, disk.Grown file state (disk.stands prepared) ∧
      disk.serial prepared = disk.serial state ∧ ∀ rounds,
      (within rounds file bytes).run.run disk.handle state =
        (withFreeName file bytes rounds).run.run disk.handle prepared ∧
      ((within rounds file bytes).run.trace disk.handle state).countP Event.tries =
        ((withFreeName file bytes rounds).run.trace disk.handle prepared).countP Event.tries := by
  cases inner : file.parent? with
  | none =>
    refine .inr ⟨state, disk.grown_refl file state, rfl, fun rounds => ?_⟩
    rw [run_within_of_top inner]
    exact ⟨rfl, rfl⟩
  | some directory =>
    let next := disk.after (.makeDirectories directory) state
    have ran (rounds : Nat) : (within rounds file bytes).run.run disk.handle state =
        (ExceptT.bindCont (fun _ => withFreeName file bytes rounds)
          (disk.told (.makeDirectories directory) state : Except Fault Unit)).run disk.handle
            next := by
      rw [run_within_of_parent inner]
      rfl
    have traced (rounds : Nat) : (within rounds file bytes).run.trace disk.handle state =
        .directed directory (disk.told (.makeDirectories directory) state) ::
          (ExceptT.bindCont (fun _ => withFreeName file bytes rounds)
            (disk.told (.makeDirectories directory) state : Except Fault Unit)).trace disk.handle
              next := by
      rw [run_within_of_parent inner]
      rfl
    cases told : (disk.told (.makeDirectories directory) state : Except Fault Unit) with
    | error fault =>
      refine .inl ⟨directory, fault, fun rounds => ?_⟩
      rw [ran, traced, told]
      exact ⟨rfl, rfl⟩
    | ok value =>
      have counted := disk.serial_other (.makeDirectories directory) nofun state
      refine .inr ⟨next, disk.grown_of_made inner state, counted, fun rounds => ?_⟩
      rw [ran, traced, told]
      exact ⟨rfl, List.countP_cons_of_neg Bool.false_ne_true⟩

/-- How long a search lasts: it tries no more names than one after `bound` others, and whoever
follows it further than that sees its end. -/
def Bounded (rounds : Nat) (file : Path) (bytes : List UInt8) (state : σ) (bound : Nat) : Prop :=
  ((within rounds file bytes).run.trace disk.handle state).countP Event.tries ≤ bound + 1 ∧
    (bound < rounds → ((within rounds file bytes).run.run disk.handle state).1 ≠ .ok false)

variable {disk} in
theorem Bounded.mono {rounds : Nat} {state : σ} {bound more : Nat}
    (bounded : disk.Bounded rounds file bytes state bound) (fewer : bound ≤ more) :
    disk.Bounded rounds file bytes state more :=
  ⟨bounded.1.trans (Nat.succ_le_succ fewer), fun enough => bounded.2 (fewer.trans_lt enough)⟩

theorem bounded_within (rounds : Nat) (bytes : List UInt8) {state : σ} (ahead : Nat)
    (free : disk.Free file state (disk.leads
      (temporary file (disk.process, disk.serial state + UInt64.ofNat ahead)))) :
    disk.Bounded rounds file bytes state ahead := by
  rcases disk.within_cases file bytes state with ⟨directory, fault, refused⟩ |
    ⟨prepared, grown, counted, goesOn⟩
  · obtain ⟨ran, traced⟩ := refused rounds
    rw [Bounded, ran, traced]
    exact ⟨Nat.zero_le _, fun _ => nofun⟩
  · obtain ⟨ran, traced⟩ := goesOn rounds
    rw [Bounded, ran, traced]
    refine disk.tries_withFreeName bytes rounds ahead ?_
    rw [counted]
    obtain ⟨nothing, offWay⟩ := free
    rcases grown _ with same | made
    · exact same.trans nothing
    · exact absurd made.2.2 offWay

/-- Among fewer names that are taken than there are numbers a free one is found. -/
theorem bounded_of_taken (rounds : Nat) (bytes : List UInt8) {state : σ} (taken : Finset UInt64)
    (few : taken.card < numbers)
    (free : ∀ number, number ∉ taken →
      disk.Free file state (disk.leads (temporary file (disk.process, number)))) :
    disk.Bounded rounds file bytes state taken.card := by
  obtain ⟨ahead, soon, isFree⟩ := exists_free taken (disk.serial state) few
  exact (disk.bounded_within rounds bytes ahead (free _ isFree)).mono soon

/-- Files with names have as many temporary names as there are numbers, so that a number of files
left over takes as many of them at most. -/
theorem bounded_of_leftover (rounds : Nat) (bytes : List UInt8) {state : σ}
    (named : file.fileName? ≠ none) (leftover : Finset Location) (few : leftover.card < numbers)
    (listed : ∀ number,
      ¬ disk.Free file state (disk.leads (temporary file (disk.process, number))) →
      disk.leads (temporary file (disk.process, number)) ∈ leftover) :
    disk.Bounded rounds file bytes state leftover.card := by
  obtain ⟨name, named⟩ := Option.ne_none_iff_exists'.1 named
  let place (number : UInt64) : Location := disk.leads (temporary file (disk.process, number))
  have different : Function.Injective place := by
    intro first second same
    simp only [place, disk.leads_temporary _ named] at same
    exact temporaryName_injective disk.process
      (List.singleton_inj.1 (List.append_cancel_left same))
  let taken := leftover.preimage place different.injOn
  have fewer : taken.card ≤ leftover.card := by
    classical
    rw [Finset.card_preimage]
    exact Finset.card_filter_le _ _
  refine (disk.bounded_of_taken rounds bytes taken (fewer.trans_lt few) ?_).mono fewer
  intro number missing
  by_contra notFree
  exact missing (Finset.mem_preimage.2 (listed number notFree))

/-- Where every name is taken, and stays so, a search does not end. -/
theorem unended_of_taken (bytes : List UInt8) (rounds : Nat) {state : σ}
    (taken : ∀ later, disk.stands later = disk.stands state → ∀ number,
      disk.told (.createNew (temporary file (disk.process, number))) later =
        Except.error Fault.alreadyExists) :
    ((withFreeName file bytes rounds).run.run disk.handle state).1 = .ok false := by
  induction rounds generalizing state with
  | zero => rfl
  | succ rounds ih =>
    have looked := disk.looks .ticket trivial state
    have told := taken _ looked (disk.serial state)
    rw [(disk.withFreeName_succ file bytes rounds state).1, told]
    exact ih fun later same => taken later (same.trans ((disk.create_error told).trans looked))

/-- Where every name is taken, no search succeeds. -/
theorem not_ok_of_taken (bytes : List UInt8) (rounds : Nat) {state : σ}
    (taken : ∀ number,
      disk.stands state (disk.leads (temporary file (disk.process, number))) ≠ none) :
    ((withFreeName file bytes rounds).run.run disk.handle state).1 ≠ .ok true := by
  induction rounds generalizing state with
  | zero => exact nofun
  | succ rounds ih =>
    let draft := temporary file (disk.process, disk.serial state)
    let asked := disk.after .ticket state
    have looked : disk.stands asked = disk.stands state := disk.looks .ticket trivial state
    rw [(disk.withFreeName_succ file bytes rounds state).1]
    cases told : (disk.told (.createNew draft) asked : Except Fault Unit) with
    | ok value =>
      have free := (disk.create_ok told).2.1
      rw [looked] at free
      exact absurd free (taken _)
    | error fault =>
      by_cases again : fault = .alreadyExists
      · subst again
        refine ih fun number => ?_
        rw [disk.create_error told, looked]
        exact taken number
      · rw [goOn_error again]
        exact nofun

/-- Who has tried every number and found its name taken succeeds by no further search. -/
theorem not_ok_of_searching (rounds : Nat) {state : σ}
    (searching : ((within numbers file bytes).run.run disk.handle state).1 = .ok false) :
    ((within rounds file bytes).run.run disk.handle state).1 ≠ .ok true := by
  rcases disk.within_cases file bytes state with ⟨directory, fault, refused⟩ |
    ⟨prepared, grown, counted, goesOn⟩
  · rw [(refused rounds).1]
    exact nofun
  · rw [(goesOn numbers).1] at searching
    rw [(goesOn rounds).1]
    refine disk.not_ok_of_taken bytes rounds fun number free => ?_
    let ahead := (number - disk.serial prepared).toNat
    have comes : disk.serial prepared + UInt64.ofNat ahead = number := by
      rw [UInt64.ofNat_toNat, UInt64.add_comm, UInt64.sub_add_cancel]
    have found := (disk.tries_withFreeName bytes numbers ahead (comes ▸ free)).2
    exact found (number - disk.serial prepared).toNat_lt searching

/-- What is missing on a straight way to a file has fewer names. -/
theorem shorter_of_onWay {state : σ} {location : Location} (named : file.fileName? ≠ none)
    (straight : disk.Straight state file.components) (onWay : disk.OnWay file location)
    (missing : disk.stands state location = none) :
    location.length < (disk.leads file).length := by
  obtain ⟨name, named⟩ := Option.ne_none_iff_exists'.1 named
  obtain ⟨directory, inner, shape⟩ :=
    Path.components_parent (Path.fileName?_eq_some.1 named) nofun
  obtain ⟨other, isParent, passes⟩ := onWay
  obtain rfl : directory = other := Option.some.inj (inner.symm.trans isParent)
  have straight : disk.Straight state directory.components := fun front rest cut =>
    straight front (rest ++ [.name name]) (by rw [shape, cut, List.append_assoc, List.cons_append])
  have short := (disk.above_of_missing straight passes missing).length_le
  rw [disk.leads_named named, shape, List.dropLast_concat, List.length_append]
  exact Nat.lt_succ_of_le short

/-- Beside a file to which a straight way leads, every place is free where nothing stands. -/
theorem free_of_missing {state : σ} {ticket : Nat × UInt64} (named : file.fileName? ≠ none)
    (straight : disk.Straight state file.components)
    (missing : disk.stands state (disk.leads (temporary file ticket)) = none) :
    disk.Free file state (disk.leads (temporary file ticket)) := by
  refine ⟨missing, fun onWay => ?_⟩
  have shorter := disk.shorter_of_onWay named straight onWay missing
  obtain ⟨name, named⟩ := Option.ne_none_iff_exists'.1 named
  rw [disk.leads_temporary ticket named, disk.leads_named named, List.length_append,
    List.length_append] at shorter
  exact absurd shorter (lt_irrefl _)

/-- Directories that are made on a straight way to a file change nothing beside it. -/
theorem grown_beside {state : σ} {base : Location → Option FileEntry}
    (named : file.fileName? ≠ none) (straight : disk.Straight state file.components)
    (grown : disk.Grown file state base) {location : Location}
    (deep : (disk.leads file).length ≤ location.length) :
    base location = disk.stands state location := by
  rcases grown location with same | ⟨missing, -, onWay⟩
  · exact same
  · have shorter := disk.shorter_of_onWay named straight onWay missing
    omega

/-! ## Which names are tried -/

/-- A temporary name is no path that ends with a letter, and leads elsewhere. -/
theorem apart_of_temporary (ticket : Nat × UInt64) {other : Path} {b : UInt8}
    (ends : other.bytes.getLast? = some b) (letter : 0x60 < b.toNat) :
    temporary file ticket ≠ other ∧
      (file.fileName? ≠ none → disk.leads (temporary file ticket) ≠ disk.leads other) := by
  obtain ⟨above, name, shape, last⟩ :=
    Path.components_of_getLast? ends (Path.noMark_of_lt (by omega))
  cases named : file.fileName? with
  | none =>
    refine ⟨?_, fun isNamed => absurd rfl isNamed⟩
    rw [temporary_of_nameless ticket named]
    rintro rfl
    have isName : file.fileName? = some name :=
      Path.fileName?_eq_some.2 (by rw [shape, List.getLast?_concat])
    exact Option.some_ne_none name (isName.symm.trans named)
  | some own =>
    obtain ⟨digit, ending, low, high⟩ := getLast?_temporary ticket named
    have differ : digit ≠ b := by
      rintro rfl
      omega
    constructor
    · rintro rfl
      exact differ (Option.some.inj (ending.symm.trans ends))
    · intro _ same
      obtain ⟨outer, draft, parts, tail⟩ :=
        Path.components_of_getLast? ending (Path.noMark_of_lt (by omega))
      rw [FileSystem.leads, FileSystem.leads, parts, shape, Location.along_name,
        Location.along_name] at same
      have equal : draft = name := by
        have both := congrArg List.getLast? same
        simpa using both
      subst equal
      exact differ (Option.some.inj (tail.symm.trans last))

/-- A name that is tried is no entry, no report and no lock, and leads elsewhere. -/
theorem apart_of_tried {rounds : Nat} {state : σ} {draft : Path} {told : Except Fault Unit}
    (tried : .created draft told ∈ (within rounds file bytes).run.trace disk.handle state)
    (folder : CacheFolder) (text key : String) :
    ∀ other ∈ [folder.entry text key, folder.report text, folder.lock text],
      draft ≠ other ∧ (file.fileName? ≠ none → disk.leads draft ≠ disk.leads other) := by
  obtain ⟨ticket, rfl⟩ :=
    asks_within.ends (Program.transcript_trace disk.handle _ state) _ tried draft rfl
  intro other mem
  simp only [List.mem_cons, List.not_mem_nil, or_false] at mem
  rcases mem with rfl | rfl | rfl
  · exact disk.apart_of_temporary ticket (folder.getLast?_entry text key) (by decide)
  · exact disk.apart_of_temporary ticket (folder.getLast?_report text) (by decide)
  · exact disk.apart_of_temporary ticket (folder.getLast?_lock text) (by decide)

/-! ## All together -/

/-- Replacing a file's bytes, whatever the system refuses, wherever the process is stopped and
however far the search is followed.

At every point the file holds what it held before or all of the new bytes, every file that there
was before holds what it held, and a file that there was not is a temporary one. Success leaves the
new bytes and no other change of files. Failure leaves the file and those that there were, and all
files as they were if no removal was refused. Whoever is still searching has changed no file, and
if it has tried every number, it succeeds by no further search; who has seen the end sees no other
by following further. While fewer temporary names of a file with a name are taken than there are
numbers, the search comes to its end. A temporary name is never that of an entry, a report or a
lock. -/
theorem replacement_atomic (disk : Disk σ) (file : Path) (bytes : List UInt8) (rounds : Nat)
    (state : σ) :
    let program := (within rounds file bytes).run
    let result := (program.run disk.handle state).1
    let last := (program.run disk.handle state).2
    let events := program.trace disk.handle state
    (∀ count, disk.Untorn file bytes (disk.files state)
      (program.runFor disk.handle count state).2) ∧
    (result = .ok true →
      disk.files last = Function.update (disk.files state) (disk.leads file) (some bytes)) ∧
    (∀ fault, result = .error fault →
      disk.files last (disk.leads file) = disk.files state (disk.leads file) ∧
        (∀ location, disk.files state location ≠ none →
          disk.files last location = disk.files state location) ∧
        ((∀ draft refusal, .removed draft (.error refusal) ∉ events) →
          disk.files last = disk.files state)) ∧
    (result = .ok false → disk.files last = disk.files state ∧
      (rounds = numbers → ∀ further,
        ((within further file bytes).run.run disk.handle state).1 ≠ .ok true)) ∧
    (result ≠ .ok false → ∀ further, rounds ≤ further →
      (within further file bytes).run.run disk.handle state = (result, last)) ∧
    (∀ taken : Finset UInt64, taken.card < numbers →
      (∀ number, number ∉ taken →
        disk.Free file state (disk.leads (temporary file (disk.process, number)))) →
      disk.Bounded rounds file bytes state taken.card) ∧
    (file.fileName? ≠ none → ∀ leftover : Finset Location, leftover.card < numbers →
      (∀ number,
        ¬ disk.Free file state (disk.leads (temporary file (disk.process, number))) →
        disk.leads (temporary file (disk.process, number)) ∈ leftover) →
      disk.Bounded rounds file bytes state leftover.card) ∧
    ∀ draft told, .created draft told ∈ events →
      ∀ (folder : CacheFolder) (text key : String),
      ∀ other ∈ [folder.entry text key, folder.report text, folder.lock text],
        draft ≠ other ∧ (file.fileName? ≠ none → disk.leads draft ≠ disk.leads other) := by
  intro program result last events
  obtain ⟨base, grown, ended⟩ := disk.ended_within rounds file bytes state
  refine ⟨disk.untorn_runFor rounds file bytes state, fun success => ?_, fun fault failure => ?_,
    fun searching => ?_, fun seen further more => ?_,
    fun taken few free => disk.bounded_of_taken rounds bytes taken few free,
    fun named leftover few listed =>
      disk.bounded_of_leftover rounds bytes named leftover few listed,
    fun draft told tried => disk.apart_of_tried tried⟩
  · rw [show ((within rounds file bytes).run.run disk.handle state).1 = .ok true from success]
      at ended
    exact (Replaced.files ended).trans (by rw [grown.content])
  · rw [show ((within rounds file bytes).run.run disk.handle state).1 = .error fault from failure]
      at ended
    rw [← grown.content]
    rcases ended with same | ⟨draft, refusal, pending, spoiled⟩
    · have whole : disk.files last = FileEntry.content ∘ base :=
        congrArg (FileEntry.content ∘ ·) same
      rw [whole]
      exact ⟨rfl, fun _ _ => rfl, fun _ => rfl⟩
    · refine ⟨?_, fun location there => ?_, fun removed => absurd spoiled (removed _ _)⟩
      · exact congrArg FileEntry.content (pending.others _ pending.beside.symm)
      · refine congrArg FileEntry.content (pending.others location ?_)
        rintro rfl
        exact there (congrArg FileEntry.content pending.free)
  · rw [show ((within rounds file bytes).run.run disk.handle state).1 = .ok false from searching]
      at ended
    refine ⟨?_, ?_⟩
    · rw [← grown.content]
      exact congrArg (FileEntry.content ∘ ·) ended
    · rintro rfl further
      exact disk.not_ok_of_searching further searching
  · exact run_within_of_le disk.handle more seen

end Disk

/-- A small machine: a file, and what a process of the same number has left beside it. -/
def Machine.desk : {machine : Machine // machine.Orderly [] 4242} :=
  ⟨{ files := ⟨[([bytes "d"], .directory), ([bytes "d", bytes "x.json"], .file [1]),
       ([bytes "d", bytes "x.tmp.4242.0"], .file [2])]⟩
     directory := [] },
    rfl, rfl, FileTree.connected_of_entries (by decide +kernel), rfl⟩

/-- Nothing else stands on the desk. -/
theorem Machine.desk_missing {location : Location} (deep : location.length = 2)
    (other : location ≠ [bytes "d", bytes "x.json"])
    (fresh : location ≠ [bytes "d", bytes "x.tmp.4242.0"]) :
    (Machine.disk [] 4242).stands Machine.desk location = none := by
  have filled : location ≠ [] := by
    rintro rfl
    contradiction
  have inner : location ≠ [bytes "d"] := by
    rintro rfl
    contradiction
  show Machine.desk.1.files.get? location = none
  rw [FileTree.get?, if_neg filled, List.lookup_eq_none_iff]
  simp [Machine.desk, inner, other, fresh]

namespace Disk

set_option maxRecDepth 100000 in
/-- On the desk the name that was left is passed, and a directory is not replaced. -/
theorem replacement_atomic_desk :
    let disk := Machine.disk [] 4242
    let program := (within 2 (Path.ofText "d/x.json") [3, 4]).run
    let refused := (within 2 (Path.ofText "d") [3, 4]).run
    (program.run disk.handle Machine.desk).1 = .ok true ∧
      disk.files (program.run disk.handle Machine.desk).2 =
        Function.update (disk.files Machine.desk) [bytes "d", bytes "x.json"] (some [3, 4]) ∧
      disk.Bounded 2 (Path.ofText "d/x.json") [3, 4] Machine.desk 1 ∧
      (refused.run disk.handle Machine.desk).1 = .error .isADirectory ∧
      disk.files (refused.run disk.handle Machine.desk).2 = disk.files Machine.desk := by
  intro disk program refused
  have replaced := replacement_atomic disk (Path.ofText "d/x.json") [3, 4] 2 Machine.desk
  have kept := replacement_atomic disk (Path.ofText "d") [3, 4] 2 Machine.desk
  have granted : (program.run disk.handle Machine.desk).1 = .ok true := by decide +kernel
  have failed : (refused.run disk.handle Machine.desk).1 = .error .isADirectory := by
    decide +kernel
  refine ⟨granted, replaced.2.1 granted, ?_, failed, (kept.2.2.1 _ failed).2.2 ?_⟩
  · have named : (Path.ofText "d/x.json").fileName? = some (bytes "x.json") := by decide +kernel
    have isNamed : (Path.ofText "d/x.json").fileName? ≠ none := by simp [named]
    have single : (Path.ofText "d/x.json").components.dropLast = [.name (bytes "d")] := by
      decide +kernel
    have straight : disk.Straight Machine.desk (Path.ofText "d/x.json").components :=
      disk.straight_of_not_mem (by decide +kernel)
    refine replaced.2.2.2.2.2.2.1 isNamed {[bytes "d", bytes "x.tmp.4242.0"]}
      (by rw [Finset.card_singleton]; decide) fun number notFree => ?_
    by_contra other
    have deep : (disk.leads (temporary (Path.ofText "d/x.json") (disk.process, number))).length =
        2 := by
      rw [disk.leads_temporary _ named, single]
      rfl
    have target : disk.leads (Path.ofText "d/x.json") = [bytes "d", bytes "x.json"] := by
      decide +kernel
    have missing := Machine.desk_missing deep
      (target ▸ disk.leads_temporary_ne (disk.process, number) named)
      (fun same => other (Finset.mem_singleton.2 same))
    exact notFree (disk.free_of_missing isNamed straight missing)
  · intro draft refusal mem
    have calm : (refused.trace disk.handle Machine.desk).all (!·.leaves) = true := by
      decide +kernel
    exact absurd (List.all_eq_true.1 calm _ mem) Bool.noConfusion

end Disk

/-! ## Searches without end, and a path that leads elsewhere -/

/-- The path of an entry. -/
def Machine.record : Path := (⟨Path.ofText "c"⟩ : CacheFolder).entry "d" "k"

/-- The directory of the entry, with what processes of one number have left there. -/
def Machine.atticFiles (left : List UInt64) : FileTree :=
  ⟨([bytes "c"], .directory) :: ([bytes "c", bytes "d"], .directory) ::
    left.map fun number =>
      ([bytes "c", bytes "d", temporaryName (CacheFolder.entryName "k") (4242, number)], .file [])⟩

theorem Machine.connected_atticFiles (left : List UInt64) : (atticFiles left).Connected := by
  refine FileTree.connected_of_entries fun item mem outer under inner => ?_
  rw [List.mem_inits] at under
  simp only [atticFiles, List.mem_cons, List.mem_map] at mem
  rcases mem with rfl | rfl | ⟨number, -, rfl⟩ <;>
  · simp only [List.prefix_cons_iff, List.prefix_nil] at under
    rcases under with rfl | ⟨_, rfl, rfl | ⟨_, rfl, rfl | ⟨_, rfl, rfl⟩⟩⟩ <;>
      first | rfl | exact absurd rfl inner

/-- A machine with these files. -/
def Machine.attic (left : List UInt64) : {machine : Machine // machine.Orderly [] 4242} :=
  ⟨{ files := atticFiles left, directory := [] },
    rfl, rfl, connected_atticFiles left, rfl⟩

/-- Every number that there is. -/
def Machine.allNumbers : List UInt64 := (List.range numbers).map UInt64.ofNat

theorem Machine.mem_allNumbers (number : UInt64) : number ∈ allNumbers :=
  List.mem_map.2 ⟨number.toNat, List.mem_range.2 number.toNat_lt, UInt64.ofNat_toNat⟩

section

variable {left : List UInt64} {number : UInt64}

/-- Each name that was left is taken. -/
theorem Machine.get?_atticFiles (mem : number ∈ left) :
    (atticFiles left).get?
      [bytes "c", bytes "d", temporaryName (CacheFolder.entryName "k") (4242, number)] ≠ none := by
  rw [FileTree.get?, if_neg (List.cons_ne_nil _ _), Ne, List.lookup_eq_none_iff]
  intro other
  have here := other _
    (List.mem_cons_of_mem _ (List.mem_cons_of_mem _ (List.mem_map.2 ⟨number, mem, rfl⟩)))
  simp at here

theorem Machine.fileName?_record : record.fileName? = some (CacheFolder.entryName "k") :=
  CacheFolder.fileName?_entry _ (by decide) "k"

theorem Machine.length_extension (number : UInt64) :
    (bytes (extension (4242, number))).length ≤ 29 := by
  have start : (bytes ("tmp." ++ toString 4242)).length = 8 := by decide
  have digits := length_bytes_number number
  simp only [bytes_extension, List.length_append, List.length_cons, start]
  omega

/-- The system looks at the temporary paths for the entry. -/
theorem Machine.checkPath_record :
    FileTree.checkPath (temporary record (4242, number)) = .ok () := by
  have shape : (temporary record (4242, number)).bytes =
      (Path.trimmed record.bytes.reverse).reverse.take
          ((Path.trimmed record.bytes.reverse).reverse.length -
            ((CacheFolder.entryName "k").length - Path.stemLength (CacheFolder.entryName "k"))) ++
        fullStop :: bytes (extension (4242, number)) := by
    rw [temporary, Path.withExtension, fileName?_record]
    rfl
  rw [show List.take _ _ = bytes ("c/d/" ++ Sha256.hexDigest "k") by decide +kernel] at shape
  have start : (bytes ("c/d/" ++ Sha256.hexDigest "k")).length = 68 ∧
      0 ∉ bytes ("c/d/" ++ Sha256.hexDigest "k") := by decide +kernel
  have noNul : (0 : UInt8) ∉ bytes (extension (4242, number)) := by
    have mark : 0 ∉ bytes ("tmp." ++ toString 4242) ++ [fullStop] := by decide
    intro mem
    rw [bytes_extension, List.append_cons, List.mem_append] at mem
    rcases mem with early | late
    · exact mark early
    · exact absurd (digit_of_mem_bytes late).1 (by decide)
  have ending := length_extension number
  have limit : FileTree.pathLimit = 4095 := rfl
  have stop : (0 : UInt8) ≠ fullStop := by decide
  rw [FileTree.checkPath, shape, if_neg, if_neg, if_neg]
  · simp only [List.length_append, List.length_cons, start.1]
    omega
  · simp
  · simp [start.2, stop, noNul]

/-- They lead to the names that may be taken. -/
theorem Machine.follow_record (number : UInt64) {tree : FileTree}
    (outer : tree.get? [bytes "c"] = some .directory)
    (inner : tree.get? [bytes "c", bytes "d"] = some .directory) :
    tree.follow [] (temporary record (4242, number)).components =
      .ok [bytes "c", bytes "d", temporaryName (CacheFolder.entryName "k") (4242, number)] := by
  have above : record.components.dropLast = [.name (bytes "c"), .name (bytes "d")] := by
    decide +kernel
  have short : (temporaryName (CacheFolder.entryName "k") (4242, number)).length ≤
      FileTree.nameLimit := by
    have long : (CacheFolder.entryName "k").length = 69 := by decide +kernel
    have ending := length_extension number
    have limit : FileTree.nameLimit = 255 := rfl
    simp only [temporaryName, Path.renamed, List.length_append, List.length_take,
      List.length_cons, long]
    omega
  rw [components_temporary _ fileName?_record, above]
  refine (FileTree.follow_name rfl (by decide)).trans ?_
  refine (FileTree.follow_name outer (by decide)).trans ?_
  exact FileTree.follow_name inner short

theorem Machine.told_createNew {directory : Location} {process : Nat}
    (state : {machine : Machine // machine.Orderly directory process}) (path : Path) :
    (Machine.disk directory process).told (.createNew path) state =
      (state.1.change (state.1.files.createNew state.1.directory path)).1 :=
  rfl

theorem Machine.told_createNew_record {state : {machine : Machine // machine.Orderly [] 4242}}
    (same : (Machine.disk [] 4242).stands state = (Machine.disk [] 4242).stands (attic left))
    (mem : number ∈ left) :
    (Machine.disk [] 4242).told (.createNew (temporary record (4242, number))) state =
      Except.error Fault.alreadyExists := by
  have equal : state.1.files.get? = (atticFiles left).get? := same
  have outer : state.1.files.get? [bytes "c"] = some .directory := by rw [equal]; rfl
  have inner : state.1.files.get? [bytes "c", bytes "d"] = some .directory := by rw [equal]; rfl
  obtain ⟨digit, ends, low, high⟩ := getLast?_temporary (4242, number) fileName?_record
  obtain ⟨entry, there⟩ := Option.ne_none_iff_exists'.1 (get?_atticFiles mem)
  have made := FileTree.createNew_of_get? checkPath_record (follow_record number outer inner)
    (FileTree.namesDirectory_of_getLast? ends (Path.noMark_of_lt (by omega))) (equal ▸ there)
  rw [told_createNew, state.2.starts, made]
  rfl

end

theorem Machine.parent?_record : record.parent? = some ⟨bytes "c/d"⟩ := by decide +kernel

/-- The directories on the way to the entry are there. -/
theorem Machine.make_attic (left : List UInt64) :
    (Machine.disk [] 4242).told (.makeDirectories ⟨bytes "c/d"⟩) (attic left) = Except.ok () ∧
      (Machine.disk [] 4242).stands
        ((Machine.disk [] 4242).after (.makeDirectories ⟨bytes "c/d"⟩) (attic left)) =
          (Machine.disk [] 4242).stands (attic left) :=
  ⟨rfl, rfl⟩

/-- Where all numbers are in use, the search for a temporary name of the entry never ends. -/
theorem Machine.unended_attic (content : List UInt8) (rounds : Nat) :
    ((within rounds record content).run.run (Machine.disk [] 4242).handle
      (attic allNumbers)).1 = .ok false := by
  rw [run_within_of_parent parent?_record]
  refine (Machine.disk [] 4242).unended_of_taken content rounds fun later still number => ?_
  exact told_createNew_record (still.trans (make_attic _).2) (mem_allNumbers number)

/-- On a machine the name `..` is taken, whatever stands there. -/
theorem Machine.told_createNew_up (state : {machine : Machine // machine.Orderly [] 4242}) :
    (Machine.disk [] 4242).told (.createNew (Path.ofText "..")) state =
      Except.error Fault.alreadyExists := by
  obtain ⟨⟨files, directory⟩, starts, isProcess, inOrder⟩ := state
  obtain rfl : directory = [] := starts
  rfl

/-- A file, and a name so long that no temporary name for it is allowed. -/
def Machine.longName : List UInt8 := List.replicate 250 0x61

/-- A machine with a file of that name. -/
def Machine.plain : {machine : Machine // machine.Orderly [] 4242} :=
  ⟨{ files := ⟨[([Machine.longName], .file [1])]⟩
     directory := [] },
    rfl, rfl, FileTree.connected_of_entries (by decide +kernel), rfl⟩

namespace Disk

/-- The search for a temporary name of `..` never ends, although nothing was left over. -/
theorem unended_up (content : List UInt8) (rounds : Nat)
    (state : {machine : Machine // machine.Orderly [] 4242}) :
    ((withFreeName (Path.ofText "..") content rounds).run.run (Machine.disk [] 4242).handle
      state).1 = .ok false := by
  refine (Machine.disk [] 4242).unended_of_taken content rounds fun later _ number => ?_
  rw [temporary_of_nameless _ (by decide)]
  exact Machine.told_createNew_up later

set_option maxRecDepth 100000 in
/-- The search for a temporary name of `..` never ends, although no file was left over; nor does
that for the name of an entry for which a file was left with every number. The path
`missing/../aa…` leads nowhere before a replacement that fails, and to an old file after it. -/
theorem replacement_unended :
    let disk := Machine.disk [] 4242
    let file : Path := ⟨bytes "missing/../" ++ Machine.longName⟩
    let program := (within 1 file [2]).run
    (∀ ticket, disk.files Machine.plain (disk.leads (temporary (Path.ofText "..") ticket)) =
        none) ∧
      (∀ rounds, ((within rounds (Path.ofText "..") [2]).run.run disk.handle Machine.plain).1 =
        .ok false) ∧
      (∀ rounds, ((within rounds Machine.record [2]).run.run disk.handle
        (Machine.attic Machine.allNumbers)).1 = .ok false) ∧
      (Host.read file).run.run disk.handle Machine.plain = (.error .notFound, Machine.plain) ∧
      (program.run disk.handle Machine.plain).1 = .error .nameTooLong ∧
      ((Host.read file).run.run disk.handle (program.run disk.handle Machine.plain).2).1 =
        .ok [1] := by
  intro disk file program
  refine ⟨fun ticket => ?_, fun rounds => ?_, Machine.unended_attic [2], ?_, ?_, ?_⟩
  · have nameless : (Path.ofText "..").fileName? = none := by decide
    rw [temporary_of_nameless ticket nameless]
    rfl
  · have top : (Path.ofText "..").parent? = some ⟨[]⟩ := by decide
    rw [run_within_of_parent top]
    exact unended_up [2] rounds _
  · decide +kernel
  · decide +kernel
  · decide +kernel

end Disk

end LocaleWatch
