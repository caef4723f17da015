import LocaleWatch.Proofs.Files.Tree
import LocaleWatch.Rehearsal.Machine

/-!
# The machine as a disk

The machine that programs are rehearsed on keeps the promises of a disk: what is proved of all
disks holds of every rehearsal.

## Main results

* `Machine.Orderly.handle` — no request disturbs the order of a machine's files.
* `Machine.disk` — a machine is a disk.
-/

namespace LocaleWatch

namespace Machine

/-- Whether a machine is a process of a number that starts from a directory, with its files in
order. -/
structure Orderly (directory : Location) (process : Nat) (machine : Machine) : Prop where
  starts : machine.directory = directory
  isProcess : machine.process = process
  files : machine.files.Orderly directory

variable {directory : Location} {process : Nat} {machine : Machine}

theorem Orderly.change (orderly : machine.Orderly directory process)
    {result : Except Fault FileTree}
    (kept : ∀ files, result = .ok files → files.Orderly directory) :
    (machine.change result).2.Orderly directory process := by
  cases result with
  | error fault => exact orderly
  | ok files => exact ⟨orderly.starts, orderly.isProcess, kept files rfl⟩

/-- No request disturbs the order. -/
theorem Orderly.handle (orderly : machine.Orderly directory process) (request : Host.Request) :
    (Machine.handle request machine).2.Orderly directory process := by
  have start := orderly.starts
  have number := orderly.isProcess
  have inOrder := orderly.files
  cases request with
  | isCancelled | kind | read | walk | sync | now | workingCopy | head => exact orderly
  | cancel | print | notice | ticket => exact ⟨start, number, inOrder⟩
  | unlock path =>
    unfold Machine.handle Machine.unlock
    dsimp only
    split <;> exact ⟨start, number, inOrder⟩
  | git command =>
    unfold Machine.handle Machine.git
    dsimp only
    repeat' split
    all_goals exact ⟨start, number, inOrder⟩
  | makeDirectories path =>
    have made : (machine.files.makeDirectories machine.directory path).2.Orderly directory := by
      unfold FileTree.makeDirectories
      rw [start]
      split
      · exact inOrder
      · split
        · exact inOrder
        · exact inOrder.makeAlong _
    exact ⟨start, number, made⟩
  | createNew path =>
    refine orderly.change fun files made => ?_
    rw [start] at made
    obtain ⟨location, located, free, rfl⟩ := FileTree.createNew_ok made
    exact inOrder.put located (by rw [free]; exact nofun) _
  | write path bytes =>
    refine orderly.change fun files wrote => ?_
    rw [start] at wrote
    obtain ⟨location, old, located, isFile, rfl⟩ := FileTree.write_ok wrote
    exact inOrder.put located (by rw [isFile]; exact nofun) _
  | rename source target =>
    refine orderly.change fun files renamed => ?_
    rw [start] at renamed
    exact inOrder.rename renamed
  | remove path =>
    refine orderly.change fun files removed => ?_
    rw [start] at removed
    obtain ⟨location, bytes, -, isFile, rfl⟩ := FileTree.remove_ok removed
    exact inOrder.erase isFile
  | lock path patience =>
    unfold Machine.handle Machine.lock
    dsimp only
    split
    · exact orderly
    · next location files opened =>
      rw [start] at opened
      have kept : files.Orderly directory := by
        rcases FileTree.openFile_ok opened with rfl | ⟨located, free, rfl⟩
        · exact inOrder
        · exact inOrder.put located (by rw [free]; exact nofun) _
      split
      · split <;> exact ⟨start, number, kept⟩
      · exact ⟨start, number, kept⟩

/-- Only tickets count. -/
theorem serial_handle {request : Host.Request} (other : request ≠ .ticket) :
    (Machine.handle request machine).2.serial = machine.serial := by
  have change (result : Except Fault FileTree) :
      (machine.change result).2.serial = machine.serial := by
    cases result <;> rfl
  cases request with
  | ticket => exact absurd rfl other
  | createNew | write | rename | remove => exact change _
  | unlock path =>
    unfold Machine.handle Machine.unlock
    dsimp only
    split <;> rfl
  | git command =>
    unfold Machine.handle Machine.git
    dsimp only
    repeat' split
    all_goals rfl
  | lock path patience =>
    unfold Machine.handle Machine.lock
    dsimp only
    repeat' split
    all_goals rfl
  | _ => rfl

/-- A machine seen as a system with files. -/
def system (directory : Location) (process : Nat) :
    FileSystem {machine : Machine // machine.Orderly directory process} where
  handle request state :=
    ((Machine.handle request state.1).1,
      ⟨(Machine.handle request state.1).2, state.2.handle request⟩)
  directory := directory
  stands state := state.1.files.get?
  written state location := FileEntry.content (state.1.files.get? location)
  process := process
  serial state := state.1.serial

variable {result : Except Fault FileTree}

/-- A change that is granted makes the new files. -/
theorem of_change_ok (granted : (machine.change result).1 = .ok ()) :
    ∃ files, result = .ok files ∧ (machine.change result).2.files = files := by
  cases result with
  | error fault => cases granted
  | ok files => exact ⟨files, rfl, rfl⟩

/-- A change that is refused leaves the files. -/
theorem of_change_error {fault : Fault} (refused : (machine.change result).1 = .error fault) :
    result = .error fault ∧ (machine.change result).2.files = machine.files := by
  cases result with
  | error other =>
    cases refused
    exact ⟨rfl, rfl⟩
  | ok files => cases refused

/-- Where a path leads on a machine, and what is no directory there. -/
theorem Orderly.leads (orderly : machine.Orderly directory process) {path : Path}
    {location : Location}
    (located : machine.files.locate machine.directory path = .ok location) :
    (system directory process).leads path = location := by
  rw [orderly.starts] at located
  exact (FileTree.locate_ok orderly.files.connected orderly.files.there located).1.symm

theorem get?_put {tree : FileTree} {location : Location} (inner : location ≠ [])
    (entry : FileEntry) :
    (tree.put location entry).get? = Function.update tree.get? location (some entry) := by
  funext other
  by_cases same : other = location
  · rw [same, Function.update_self, FileTree.get?_put_self tree inner]
  · rw [Function.update_of_ne same, FileTree.get?_put_of_ne tree same]

theorem get?_erase {tree : FileTree} {location : Location} (inner : location ≠ []) :
    (tree.erase location).get? = Function.update tree.get? location none := by
  funext other
  by_cases same : other = location
  · rw [same, Function.update_self, FileTree.get?_erase_self tree inner]
  · rw [Function.update_of_ne same, FileTree.get?_erase_of_ne tree same]

/-! ## The promises, one by one -/

section

variable (orderly : machine.Orderly directory process) {path : Path}

include orderly

theorem Orderly.read_notFound (filled : path.components ≠ [])
    (answer : machine.files.read machine.directory path = .error .notFound) :
    ∃ place, (system directory process).Passes path place ∧ machine.files.get? place = none := by
  rw [orderly.starts] at answer
  obtain ⟨front, under, missing⟩ :=
    FileTree.read_notFound orderly.files.connected orderly.files.there filled answer
  exact ⟨_, ⟨front, under, rfl⟩, missing⟩

theorem Orderly.kind_ok {kind : FileKind} (answer : machine.kind path = .ok kind) :
    machine.files.get? ((system directory process).leads path) ≠ none := by
  unfold Machine.kind at answer
  split at answer
  · next looked =>
    obtain ⟨location, located, same⟩ := FileTree.bind_eq_ok looked
    rw [orderly.leads located, Except.ok.inj same]
    exact nofun
  · next looked =>
    obtain ⟨location, located, same⟩ := FileTree.bind_eq_ok looked
    rw [orderly.leads located, Except.ok.inj same]
    exact nofun
  · cases answer
  · cases answer

theorem Orderly.kind_notFound (filled : path.components ≠ [])
    (answer : machine.kind path = .error .notFound) :
    ∃ place, (system directory process).Passes path place ∧ machine.files.get? place = none := by
  unfold Machine.kind at answer
  rw [orderly.starts] at answer
  have missing : ∃ front, front <+: path.components ∧
      machine.files.get? (Location.along directory front) = none := by
    split at answer
    · cases answer
    · cases answer
    · next looked => exact FileTree.entry?_none orderly.files.connected orderly.files.there looked
    · next looked =>
      cases answer
      rcases FileTree.bind_eq_error looked with unlocated | ⟨location, -, same⟩
      · exact (FileTree.locate_error unlocated).2 rfl filled
      · cases same
  obtain ⟨front, under, missing⟩ := missing
  exact ⟨_, ⟨front, under, rfl⟩, missing⟩

theorem Orderly.make (path : Path) (location : Location) :
    (machine.files.makeDirectories machine.directory path).2.get? location =
        machine.files.get? location ∨
      machine.files.get? location = none ∧
        (machine.files.makeDirectories machine.directory path).2.get? location =
          some .directory ∧
        (system directory process).Passes path location := by
  rw [orderly.starts]
  unfold FileTree.makeDirectories
  split
  · exact .inl rfl
  · split
    · exact .inl rfl
    · exact (FileTree.makeAlong_spec orderly.files.connected path.components
        orderly.files.there).2 location

theorem Orderly.make_ok {place : Location}
    (answer : (machine.files.makeDirectories machine.directory path).1 = .ok ())
    (passes : (system directory process).Passes path place) :
    (machine.files.makeDirectories machine.directory path).2.get? place = some .directory := by
  obtain ⟨front, under, rfl⟩ := passes
  rw [orderly.starts] at answer ⊢
  unfold FileTree.makeDirectories at answer ⊢
  split at answer
  · next empty =>
    rw [Path.components_of_empty (List.isEmpty_iff.1 empty)] at under
    rw [if_pos empty, List.prefix_nil.1 under]
    exact orderly.files.there
  · next filled =>
    rw [if_neg filled]
    split at answer
    · cases answer
    · exact FileTree.makeAlong_ok orderly.files.connected orderly.files.there answer under

theorem Orderly.create_ok
    (answer : (machine.change (machine.files.createNew machine.directory path)).1 = .ok ()) :
    path.fileName? ≠ none ∧ machine.files.get? ((system directory process).leads path) = none ∧
      (machine.change (machine.files.createNew machine.directory path)).2.files.get? =
        Function.update machine.files.get? ((system directory process).leads path)
          (some (.file [])) := by
  obtain ⟨files, made, same⟩ := of_change_ok answer
  obtain ⟨location, located, free, rfl⟩ := FileTree.createNew_ok made
  rw [same, orderly.leads located]
  rw [orderly.starts] at located
  obtain ⟨named, inner, -⟩ := (FileTree.locate_ok orderly.files.connected orderly.files.there
    located).2 (by rw [free]; exact nofun)
  exact ⟨named, free, get?_put inner _⟩

theorem Orderly.create_taken
    (answer : (machine.change (machine.files.createNew machine.directory path)).1 =
      .error .alreadyExists) :
    machine.files.get? ((system directory process).leads path) ≠ none := by
  obtain ⟨location, located, taken⟩ := FileTree.createNew_taken (of_change_error answer).1
  rwa [orderly.leads located]

theorem Orderly.write_other {bytes : List UInt8} {location : Location}
    (other : location ≠ (system directory process).leads path) :
    (machine.change (machine.files.write machine.directory path bytes)).2.files.get? location =
      machine.files.get? location := by
  cases wrote : machine.files.write machine.directory path bytes with
  | error fault => rfl
  | ok files =>
    obtain ⟨place, old, located, -, rfl⟩ := FileTree.write_ok wrote
    rw [orderly.leads located] at other
    exact FileTree.get?_put_of_ne machine.files other _

theorem Orderly.write_here {old bytes : List UInt8}
    (was : machine.files.get? ((system directory process).leads path) = some (.file old)) :
    ∃ new, (machine.change (machine.files.write machine.directory path bytes)).2.files.get?
      ((system directory process).leads path) = some (.file new) := by
  cases wrote : machine.files.write machine.directory path bytes with
  | error fault => exact ⟨old, was⟩
  | ok files =>
    obtain ⟨place, other, located, isFile, rfl⟩ := FileTree.write_ok wrote
    have inner : place ≠ [] := FileTree.ne_nil_of_get?_ne (by rw [isFile]; exact nofun)
    rw [orderly.leads located]
    exact ⟨bytes, FileTree.get?_put_self machine.files inner _⟩

theorem Orderly.write_ok {bytes : List UInt8}
    (answer : (machine.change (machine.files.write machine.directory path bytes)).1 = .ok ()) :
    (machine.change (machine.files.write machine.directory path bytes)).2.files.get?
      ((system directory process).leads path) = some (.file bytes) := by
  obtain ⟨files, wrote, same⟩ := of_change_ok answer
  obtain ⟨place, old, located, isFile, rfl⟩ := FileTree.write_ok wrote
  have inner : place ≠ [] := FileTree.ne_nil_of_get?_ne (by rw [isFile]; exact nofun)
  rw [same, orderly.leads located, FileTree.get?_put_self machine.files inner]

theorem Orderly.rename_ok {target : Path} {bytes : List UInt8}
    (answer : (machine.change (machine.files.rename machine.directory path target)).1 = .ok ())
    (was : machine.files.get? ((system directory process).leads path) = some (.file bytes)) :
    machine.files.get? ((system directory process).leads target) ≠ some .directory ∧
      (machine.change (machine.files.rename machine.directory path target)).2.files.get? =
        Function.update (Function.update machine.files.get? ((system directory process).leads path)
          none) ((system directory process).leads target) (some (.file bytes)) := by
  obtain ⟨files, renamed, same⟩ := of_change_ok answer
  obtain ⟨start, goal, held, found, located, isFile, noDirectory, rfl⟩ :=
    FileTree.rename_ok renamed
  rw [orderly.leads found] at was
  have content : held = bytes := by simpa using isFile.symm.trans was
  subst content
  have inner : start ≠ [] := FileTree.ne_nil_of_get?_ne (by rw [isFile]; exact nofun)
  rw [same, orderly.leads found, orderly.leads located,
    get?_put (FileTree.ne_nil_of_get?_ne noDirectory), get?_erase inner]
  exact ⟨noDirectory, rfl⟩

theorem Orderly.remove_ok
    (answer : (machine.change (machine.files.remove machine.directory path)).1 = .ok ()) :
    (∃ bytes, machine.files.get? ((system directory process).leads path) = some (.file bytes)) ∧
      (machine.change (machine.files.remove machine.directory path)).2.files.get? =
        Function.update machine.files.get? ((system directory process).leads path) none := by
  obtain ⟨files, removed, same⟩ := of_change_ok answer
  obtain ⟨location, bytes, located, isFile, rfl⟩ := FileTree.remove_ok removed
  have inner : location ≠ [] := FileTree.ne_nil_of_get?_ne (by rw [isFile]; exact nofun)
  rw [same, orderly.leads located, get?_erase inner]
  exact ⟨⟨bytes, isFile⟩, rfl⟩

theorem Orderly.remove_notFound (filled : path.components ≠ [])
    (answer : (machine.change (machine.files.remove machine.directory path)).1 =
      .error .notFound) :
    ∃ place, (system directory process).Passes path place ∧ machine.files.get? place = none := by
  have failed := (of_change_error answer).1
  rw [orderly.starts] at failed
  obtain ⟨front, under, missing⟩ :=
    FileTree.remove_notFound orderly.files.connected orderly.files.there filled failed
  exact ⟨_, ⟨front, under, rfl⟩, missing⟩

end

/-- A machine keeps the promises of a disk. -/
def disk (directory : Location) (process : Nat) :
    Disk {machine : Machine // machine.Orderly directory process} where
  toFileSystem := system directory process
  here state := state.2.files.there
  above {state _ _} there _ under inner := state.2.files.connected.above there under inner
  looks request only state := by
    cases request <;> first | rfl | cases only
  read_ok {path state bytes} answer := by
    obtain ⟨location, located, stands⟩ := FileTree.read_ok answer
    rw [state.2.leads located]
    exact stands
  read_notFound {_ state} answer filled := state.2.read_notFound filled answer
  kind_ok {_ state _} answer := state.2.kind_ok answer
  kind_notFound {_ state} answer filled := state.2.kind_notFound filled answer
  make path state location := state.2.make path location
  make_ok {_ state _} answer passes := state.2.make_ok answer passes
  create_ok {_ state} answer := state.2.create_ok answer
  create_error answer := congrArg FileTree.get? (of_change_error answer).2
  create_taken {_ state} answer := state.2.create_taken answer
  write_other _ _ state _ other := state.2.write_other other
  write_here {_ state _} was bytes := state.2.write_here was
  write_ok {_ _ state} answer := congrArg FileEntry.content (state.2.write_ok answer)
  sync_other _ _ _ _ := rfl
  sync_ok _ was := FileEntry.content_eq_some.1 was
  rename_ok {_ _ state _} answer was _ := state.2.rename_ok answer was
  rename_error answer := congrArg FileTree.get? (of_change_error answer).2
  remove_ok {_ state} answer := state.2.remove_ok answer
  remove_error answer := congrArg FileTree.get? (of_change_error answer).2
  remove_notFound {_ state} answer filled := state.2.remove_notFound filled answer
  ticket state := Prod.ext state.2.isProcess rfl
  serial_ticket _ := rfl
  serial_other _ other _ := serial_handle other

end Machine

end LocaleWatch
