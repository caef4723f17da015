import LocaleWatch.Git.Tracking
import LocaleWatch.Proofs.Cache.OnDisk
import LocaleWatch.Proofs.Cache.Readable
import LocaleWatch.Proofs.Git.Arguments

/-!
# Entries on a disk can be read

The files of the entries on any disk keep the store's side of the contract. A write puts a whole
document in the place of an entry or leaves the place as it was, wherever it is stopped, and no
temporary file is an entry; a removal leaves nothing. So from an empty cache no operation, nor any
number of them, comes to a file that it cannot read, whatever the repository answers, whatever the
disk refuses and whenever the process is stopped or cancelled. All that is asked of the others is
not to touch the entries themselves.

## Main results

* `Disk.meets_read`, `Disk.meets_write`, `Disk.meets_delete` — the files keep the store's side of
  the contract.
* `Installation.Aside.meets_perform` — what one operation keeps.
* `Installation.cache_stays_readable` — what any number of operations keep.
* `Machine.meets_askHistory` — what an operation of the program keeps on a machine.
-/

namespace LocaleWatch

/-! ## The files of entries -/

namespace Disk

variable {σ : Type} (disk : Disk σ) (folder : CacheFolder)

/-- The bytes of an entry. -/
def entry (state : σ) (kind : EntryKind) (key : String) : Option (List UInt8) :=
  disk.files state (disk.leads (folder.entry kind.category key))

/-- Every entry can be read as a value of its kind. -/
def Readable (state : σ) : Prop :=
  ∀ kind key bytes, disk.entry folder state kind key = some bytes → kind.Reads bytes

/-- A request leaves all entries alone. -/
def SparesEntries (request : Host.Request) : Prop :=
  ∀ state kind key,
    disk.entry folder (disk.after request state) kind key = disk.entry folder state kind key

variable {disk folder} {state later : σ}

/-- Entries that were left alone are as readable as before. -/
theorem Readable.spared (readable : disk.Readable folder state)
    (spared : ∀ kind key, disk.entry folder later kind key = disk.entry folder state kind key) :
    disk.Readable folder later :=
  fun kind key bytes held => readable kind key bytes ((spared kind key).symm.trans held)

theorem Readable.of_stands (readable : disk.Readable folder state)
    (same : disk.stands later = disk.stands state) : disk.Readable folder later :=
  readable.spared fun _ _ => congrArg FileEntry.content (congrFun same _)

/-- Wherever a write of a readable entry is stopped, the entries are readable. -/
theorem Readable.untorn {kind : EntryKind} {key : String} {bytes : List UInt8}
    (readable : disk.Readable folder state) (reads : kind.Reads bytes)
    (untorn : disk.Untorn (folder.entry kind.category key) bytes (disk.files state) later) :
    disk.Readable folder later := by
  intro other name found held
  have valid := kind.check_category
  by_cases same : disk.leads (folder.entry other.category name) =
      disk.leads (folder.entry kind.category key)
  · rw [entry, same] at held
    rcases untorn.whole with old | new
    · rw [old, ← same] at held
      exact readable other name found held
    · have category := ((disk.leads_entry_inj folder other.check_category valid).1 same).1
      rw [new] at held
      cases held
      exact EntryKind.category_injective category ▸ reads
  · rcases untorn.others _ same with old | ⟨-, ticket, place⟩
    · exact readable other name found (old.symm.trans held)
    · exact absurd place.symm (disk.leads_temporary_ne_entry folder valid key ticket _ _)

/-- Without one of them, the entries are readable. -/
theorem Readable.removed {file : Path} (readable : disk.Readable folder state)
    (gone : disk.stands later = Function.update (disk.stands state) (disk.leads file) none) :
    disk.Readable folder later := by
  intro kind key bytes held
  unfold entry FileSystem.files at held
  by_cases same : disk.leads (folder.entry kind.category key) = disk.leads file
  · rw [gone, same, Function.update_self] at held
    contradiction
  · rw [gone, Function.update_of_ne same] at held
    exact readable kind key bytes held

/-! ## Calls of the store -/

section

variable (readable : disk.Readable folder state) (category key : String)

include readable

theorem meets_read :
    Program.Meets disk.handle (disk.Readable folder) (folder.carryOut (.read category key)) state
      fun told later => disk.Readable folder later ∧
        readableEntries.Promises (.read category key) told := by
  cases valid : Category.check category with
  | error error =>
    have refused : folder.carryOut (.read category key) = .done _ :=
      folder.carryOut_invalid valid
    rw [refused]
    exact ⟨readable, id⟩
  | ok =>
    rw [folder.carryOut_read key valid]
    refine ⟨readable, readable.of_stands (disk.looks (.read _) trivial state), ?_⟩
    change readableEntries.Promises (.read category key) (CacheFolder.found _
      (disk.told (.read (folder.entry category key)) state : Except Fault (List UInt8)))
    cases told : (disk.told (.read (folder.entry category key)) state :
        Except Fault (List UInt8)) with
    | ok bytes =>
      rintro kind rfl
      exact readable kind key bytes (congrArg FileEntry.content (disk.read_ok told))
    | error fault => cases fault <;> first | exact id | trivial

theorem meets_delete :
    Program.Meets disk.handle (disk.Readable folder) (folder.carryOut (.delete category key)) state
      fun told later => disk.Readable folder later ∧
        readableEntries.Promises (.delete category key) told := by
  cases valid : Category.check category with
  | error error =>
    have refused : folder.carryOut (.delete category key) = .done _ :=
      folder.carryOut_invalid valid
    rw [refused]
    exact ⟨readable, id⟩
  | ok =>
    rw [folder.carryOut_delete key valid]
    change _ ∧ disk.Readable folder (disk.after (.remove _) state) ∧
      readableEntries.Promises (.delete category key) (CacheFolder.gone _
        (disk.told (.remove (folder.entry category key)) state : Except Fault Unit))
    cases told : (disk.told (.remove (folder.entry category key)) state : Except Fault Unit) with
    | ok done => exact ⟨readable, readable.removed (disk.remove_ok told).2, trivial⟩
    | error fault =>
      refine ⟨readable, readable.of_stands (disk.remove_error told), ?_⟩
      cases fault <;> first | exact id | trivial

theorem meets_holds :
    Program.Meets disk.handle (disk.Readable folder) (folder.carryOut (.holds category key)) state
      fun told later => disk.Readable folder later ∧
        readableEntries.Promises (.holds category key) told := by
  cases valid : Category.check category with
  | error error =>
    have refused : folder.carryOut (.holds category key) = .done _ :=
      folder.carryOut_invalid valid
    rw [refused]
    exact ⟨readable, trivial⟩
  | ok =>
    rw [folder.carryOut_holds key valid]
    exact ⟨readable, readable.of_stands (disk.looks (.kind _) trivial state), trivial⟩

theorem meets_write {category : String} {bytes : List UInt8}
    (allowed : readableEntries.Allows (.write category key bytes)) :
    Program.Meets disk.handle (disk.Readable folder)
      (folder.carryOut (.write category key bytes)) state
      fun told later => disk.Readable folder later ∧
        readableEntries.Promises (.write category key bytes) told := by
  obtain ⟨kind, rfl, reads⟩ := allowed
  have valid := kind.check_category
  have always (count : Nat) : disk.Readable folder
      ((folder.carryOut (.write kind.category key bytes)).runFor disk.handle count state).2 := by
    rw [folder.runFor_carryOut_write key valid, Replacement.runFor_run]
    exact readable.untorn reads (disk.untorn_runFor Replacement.numbers _ bytes state count)
  refine (Program.meets_of_runFor always).sharpen.mono ?_
  rintro told later ⟨still, ran⟩
  refine ⟨still, ?_⟩
  rw [folder.run_carryOut_write key valid] at ran
  obtain ⟨rfl, -⟩ := Prod.mk.inj ran
  cases ((Replacement.run (folder.entry kind.category key) bytes).run.run disk.handle state).1 with
  | ok done => trivial
  | error fault => exact id

end

end Disk

/-! ## Operations on a system -/

/-- What answers the tracker on a system: the entries are files below a cache directory, and the
repository and the token are asked by programs of which nothing is known. -/
structure Installation where
  folder : CacheFolder
  isCancelled : Program Host Bool
  cancel : Program Host Unit
  query : (query : Query) → Program Host (Except RepositoryError query.Result)

namespace Installation

/-- How a request of the tracker is answered. -/
def meaning (installation : Installation) :
    (request : Tracking.Request) → Program Host (Tracking.Answer request)
  | .isCancelled => installation.isCancelled
  | .cancel => installation.cancel
  | .query query => installation.query query
  | .read category key => installation.folder.carryOut (.read category key)
  | .write category key bytes => installation.folder.carryOut (.write category key bytes)
  | .delete category key => installation.folder.carryOut (.delete category key)
  | .holds category key => installation.folder.carryOut (.holds category key)

/-- An operation, with every request answered. -/
def perform (installation : Installation) (operation : Operation) :
    Program Host (Except HistoryError operation.Result) :=
  operation.attempt.run.interpret installation.meaning

end Installation

/-- A repository of the version-control program with a cache directory. -/
def GitRepository.installed (repository : GitRepository) (folder : CacheFolder) : Installation where
  folder := folder
  isCancelled := .ask (I := Host) .isCancelled .done
  cancel := .ask (I := Host) .cancel .done
  query query := (repository.answer query).run

/-- Operations on such a repository are performed so. -/
theorem GitRepository.perform_installed (repository : GitRepository) (folder : CacheFolder)
    (operation : Operation) :
    (repository.installed folder).perform operation =
      (repository.askHistory folder operation.attempt).run := by
  have same : (repository.installed folder).meaning = repository.meaning folder := by
    funext request
    cases request <;> rfl
  rw [Installation.perform, same]
  rfl

namespace Installation

variable {σ : Type} {installation : Installation} {disk : Disk σ} {start state later : σ}

/-- Neither the repository nor the token touches an entry. -/
structure Aside (installation : Installation) (disk : Disk σ) : Prop where
  isCancelled : installation.isCancelled.Asks (disk.SparesEntries installation.folder)
  cancel : installation.cancel.Asks (disk.SparesEntries installation.folder)
  query (query : Query) :
    (installation.query query).Asks (disk.SparesEntries installation.folder)

/-- A repository of the version-control program touches no entry, as long as the program touches
none; for the rest it looks at the token and for files. -/
theorem aside_installed (disk : Disk σ) (folder : CacheFolder) (repository : GitRepository)
    (isCancelled : disk.SparesEntries folder .isCancelled)
    (cancel : disk.SparesEntries folder .cancel)
    (git : ∀ command, disk.SparesEntries folder (.git command))
    (walk : ∀ directory, disk.SparesEntries folder (.walk directory)) :
    (repository.installed folder).Aside disk where
  isCancelled := ⟨isCancelled, fun _ => trivial⟩
  cancel := ⟨cancel, fun _ => trivial⟩
  query query := by
    refine Program.Asks.mono (repository.asks_answer query) fun request may => ?_
    cases request with
    | isCancelled => exact isCancelled
    | git command => exact git command
    | walk directory => exact walk directory
    | kind path =>
      exact fun state kind key =>
        congrArg FileEntry.content (congrFun (disk.looks (.kind path) trivial state) _)
    | _ => exact False.elim may

/-- Every request that the contract allows is answered as it promises, and keeps the entries
readable. -/
theorem Aside.meets_meaning (aside : installation.Aside disk) (request : Tracking.Request)
    (allowed : readableEntries.Allows request)
    (readable : disk.Readable installation.folder state) :
    Program.Meets disk.handle (disk.Readable installation.folder) (installation.meaning request)
      state fun told later => disk.Readable installation.folder later ∧
        readableEntries.Promises request told := by
  have spared {α : Type} {program : Program Host α}
      (asks : program.Asks (disk.SparesEntries installation.folder)) :
      Program.Meets disk.handle (disk.Readable installation.folder) program state
        fun _ later => disk.Readable installation.folder later :=
    asks.meets (fun request spares state readable => readable.spared (spares state)) readable
  cases request with
  | isCancelled => exact (spared aside.isCancelled).mono fun _ _ still => ⟨still, trivial⟩
  | cancel => exact (spared aside.cancel).mono fun _ _ still => ⟨still, trivial⟩
  | query query => exact (spared (aside.query query)).mono fun _ _ still => ⟨still, trivial⟩
  | read category key => exact Disk.meets_read readable category key
  | write category key bytes => exact Disk.meets_write readable key allowed
  | delete category key => exact Disk.meets_delete readable category key
  | holds category key => exact Disk.meets_holds readable category key

/-- While an operation is performed, and when it ends, the entries are readable, and it does not
fail because of one that is not. -/
theorem Aside.meets_perform (aside : installation.Aside disk) (operation : Operation)
    (readable : disk.Readable installation.folder state) :
    Program.Meets disk.handle (disk.Readable installation.folder) (installation.perform operation)
      state fun result later => disk.Readable installation.folder later ∧
        ∀ category key, result ≠ .error (.cache (.undecodable category key)) := by
  refine (Program.Honours.interpret operation.honours ?_ readable).mono ?_
  · intro request allowed state readable
    exact aside.meets_meaning request allowed readable
  · rintro result later ⟨still, fair⟩
    refine ⟨still, ?_⟩
    rintro category key rfl
    exact fair trivial

/-- The states that a system comes to while operations are performed, one after the other. Each
may be stopped anywhere; in between anything may happen that leaves the entries alone. -/
inductive Reaches (installation : Installation) (disk : Disk σ) (start : σ) : σ → Prop where
  | start : Reaches installation disk start start
  | ended {state : σ} (reached : Reaches installation disk start state) (operation : Operation) :
    Reaches installation disk start ((installation.perform operation).run disk.handle state).2
  | stopped {state : σ} (reached : Reaches installation disk start state) (operation : Operation)
    (count : Nat) :
    Reaches installation disk start
      ((installation.perform operation).runFor disk.handle count state).2
  | meanwhile {state later : σ} (reached : Reaches installation disk start state)
    (spared : ∀ kind key, disk.entry installation.folder later kind key =
      disk.entry installation.folder state kind key) :
    Reaches installation disk start later

/-- From a cache with readable entries, a system comes to such only. -/
theorem Reaches.readable (aside : installation.Aside disk)
    (reached : installation.Reaches disk start state)
    (readable : disk.Readable installation.folder start) :
    disk.Readable installation.folder state := by
  induction reached with
  | start => exact readable
  | ended _ operation ih => exact (aside.meets_perform operation ih).run.1
  | stopped _ operation count ih =>
    exact (aside.meets_perform operation ih).runFor (fun _ _ holds => holds.1) count
  | meanwhile _ spared ih => exact ih.spared spared

/-- The cache never poisons itself. Operations are performed one after the other, as many as there
are; each ends or is stopped anywhere. They start from a cache that has no entry, and nobody else
touches one. The repository and the token answer whatever they like, and the disk may refuse any
request. Then every entry can be read as a value of its kind, a fork commit among them is never
null, and no operation fails because of an entry that it cannot read. Keys whose digests are the
same share a file, which changes none of this. -/
theorem cache_stays_readable (disk : Disk σ) (installation : Installation)
    (aside : installation.Aside disk) {start state : σ}
    (empty : ∀ kind key, disk.entry installation.folder start kind key = none)
    (reached : installation.Reaches disk start state) :
    (∀ kind key bytes, disk.entry installation.folder state kind key = some bytes →
      ∃ value, JsonForm.decode? kind.Value bytes = some value ∧ kind.Keeps value) ∧
    (∀ key bytes, disk.entry installation.folder state .fork key = some bytes →
      ∃ commit, JsonForm.decode? (Option Commit) bytes = some (some commit)) ∧
    ∀ (operation : Operation) (category key : String),
      ((installation.perform operation).run disk.handle state).1 ≠
        .error (.cache (.undecodable category key)) := by
  have nothing : disk.Readable installation.folder start := by
    intro kind key bytes held
    rw [empty] at held
    contradiction
  have readable := reached.readable aside nothing
  refine ⟨readable, fun key bytes held => ?_, fun operation => ?_⟩
  · obtain ⟨value, decoded, keeps⟩ := readable .fork key bytes held
    obtain ⟨commit, rfl⟩ := Option.ne_none_iff_exists'.1 keeps
    exact ⟨commit, decoded⟩
  · exact (aside.meets_perform operation readable).run.2

end Installation

/-- On a machine the version-control program touches no entry, and neither do the token and those
who look around, so a repository on it touches none. -/
theorem Machine.aside_installed (directory : Location) (process : Nat)
    (repository : GitRepository) (folder : CacheFolder) :
    (repository.installed folder).Aside (Machine.disk directory process) := by
  have spares {request : Host.Request}
      (same : ∀ machine, (Machine.handle request machine).2.files = machine.files) :
      (Machine.disk directory process).SparesEntries folder request := by
    intro state kind key
    have still : (Machine.disk directory process).stands
        ((Machine.disk directory process).after request state) =
          (Machine.disk directory process).stands state :=
      congrArg FileTree.get? (same state.1)
    rw [Disk.entry, Disk.entry, FileSystem.files, FileSystem.files, still]
  refine Installation.aside_installed _ folder repository (spares fun _ => rfl)
    (spares fun _ => rfl) (fun command => spares fun machine => ?_) fun _ => spares fun _ => rfl
  unfold Machine.handle Machine.git
  dsimp only
  repeat' split
  all_goals rfl

/-- So wherever an operation of the program is stopped on a machine, and when it ends, the entries
are readable, and it does not fail because of one that is not. -/
theorem Machine.meets_askHistory (directory : Location) (process : Nat)
    (repository : GitRepository) (folder : CacheFolder) (operation : Operation)
    {state : {machine : Machine // machine.Orderly directory process}}
    (readable : (Machine.disk directory process).Readable folder state) :
    Program.Meets (Machine.disk directory process).handle
      ((Machine.disk directory process).Readable folder)
      (repository.askHistory folder operation.attempt).run state fun result later =>
        (Machine.disk directory process).Readable folder later ∧
          ∀ category key, result ≠ .error (.cache (.undecodable category key)) := by
  have aside := Machine.aside_installed directory process repository folder
  rw [← repository.perform_installed folder operation]
  exact aside.meets_perform operation readable

/-- The shelf with a version-control program that knows of no commit. -/
def Machine.library : {machine : Machine // machine.Orderly [] 4242} :=
  ⟨{ Machine.shelf.1 with rules := some [⟨"log", ⟨0, [], []⟩, none⟩] },
    Machine.shelf.2.starts, Machine.shelf.2.isProcess, Machine.shelf.2.files⟩

namespace Installation

/-- In a library whose main branch was looked up, the entry is the list of no commits, and nothing
that the program does after that fails because of it. -/
theorem cache_stays_readable_library :
    let disk := Machine.disk [] 4242
    let repository : GitRepository := ⟨Path.ofText "/r/", "origin", "main", true⟩
    let installation := repository.installed ⟨Path.ofText "c"⟩
    let state := ((installation.perform (.call .mainBranch)).run disk.handle Machine.library).2
    disk.entry installation.folder state .mainBranch "" = some (Text.bytes "[]") ∧
      (∀ (operation : Operation) (category key : String),
        ((installation.perform operation).run disk.handle state).1 ≠
          .error (.cache (.undecodable category key))) ∧
      ∀ (operation : Operation) (category key : String),
        ((repository.askHistory installation.folder operation.attempt).run.run disk.handle
          state).1 ≠ .error (.cache (.undecodable category key)) := by
  intro disk repository installation state
  have empty (kind : EntryKind) (key : String) :
      disk.entry installation.folder Machine.library kind key = none := by
    have place := disk.leads_entry installation.folder kind.check_category key
    have root : disk.leads installation.folder.root = [Text.bytes "c"] := by decide +kernel
    rw [root] at place
    have other : disk.leads (installation.folder.entry kind.category key) ≠ Machine.scrap := by
      rw [place]
      intro same
      have category : Text.bytes kind.category = Text.bytes "d" :=
        (List.cons.inj (List.cons.inj same).2).1
      cases kind <;> exact absurd category (by decide +kernel)
    have missing : disk.stands Machine.library
        (disk.leads (installation.folder.entry kind.category key)) = none :=
      Machine.shelf_missing (by rw [place]; rfl) other
    rw [Disk.entry, FileSystem.files, missing]
    rfl
  have aside : installation.Aside disk := Machine.aside_installed [] 4242 _ _
  have reached : installation.Reaches disk Machine.library state :=
    .ended .start (.call .mainBranch)
  have readable := cache_stays_readable disk installation aside empty reached
  refine ⟨?_, readable.2.2, fun operation => ?_⟩
  · decide +kernel
  · have asked := repository.perform_installed ⟨Path.ofText "c"⟩ operation
    exact asked ▸ readable.2.2 operation

end Installation

end LocaleWatch
