import LocaleWatch.FileTree
import LocaleWatch.Host
import LocaleWatch.Proofs.Program.Transcript
import Mathlib.Logic.Function.Basic

/-!
# Disks

A disk is any system that keeps files and does with them what systems promise. Each request may
be refused at any time. A refused request leaves everything as it was, but for two: directories
may have been made up to the one that failed, and bytes may have been written in part. A
process that is stopped in the middle of a request leaves what a refusal would leave, so it is
enough to look at runs that are stopped between two requests.

Bytes that were written need not be in the file before they are brought to the disk, so that
a file whose bytes were never synced may hold anything after a failure of power.

Paths are followed name by name, without links.

## Main results

* `Location.under_along` — who goes from a place to one that is not under it leaves it.
* `Disk.above_of_missing` — what is missing on a straight way is made on the way to its end.
-/

namespace LocaleWatch

/-! ## Where paths lead -/

/-- Where a component leads from a directory; above the root is the root. -/
def Location.step (here : Location) : Path.Component → Location
  | .root => []
  | .up => here.dropLast
  | .name name => here ++ [name]

/-- Where components lead from a directory. -/
def Location.along (here : Location) (components : List Path.Component) : Location :=
  components.foldl Location.step here

namespace Location

theorem along_append (here : Location) (first second : List Path.Component) :
    along here (first ++ second) = along (along here first) second :=
  List.foldl_append

theorem along_name (here : Location) (components : List Path.Component) (name : List UInt8) :
    along here (components ++ [.name name]) = along here components ++ [name] :=
  along_append here components _

/-- What comes before the end comes before the last item. -/
theorem under_dropLast {α : Type} {outer whole : List α} (under : outer <+: whole)
    (inner : outer ≠ whole) : outer <+: whole.dropLast := by
  obtain ⟨suffix, rfl⟩ := under
  have filled : suffix ≠ [] := by
    rintro rfl
    exact inner (List.append_nil outer).symm
  rw [List.dropLast_append_of_ne_nil filled]
  exact List.prefix_append outer _

/-- Who goes from a place to one that is not under it leaves it. -/
theorem under_along {place here : Location} {components : List Path.Component}
    (under : place <+: here) (inner : Path.Component.root ∉ components)
    (stays : ∀ front rest, components = front ++ .up :: rest → along here front ≠ place) :
    place <+: along here components := by
  induction components generalizing here with
  | nil => exact under
  | cons component rest ih =>
    have inner' : Path.Component.root ∉ rest := fun mem => inner (List.mem_cons_of_mem _ mem)
    have stays' : ∀ front last, rest = front ++ .up :: last →
        along (step here component) front ≠ place := by
      intro front last shape
      exact stays (component :: front) last (by rw [shape, List.cons_append])
    refine ih ?_ inner' stays'
    cases component with
    | root => exact absurd List.mem_cons_self inner
    | name name => exact under.trans (List.prefix_append here [name])
    | up =>
      exact under_dropLast under (stays [] rest rfl).symm

end Location

/-- Only the first component of a path can be the root. -/
theorem Path.root_not_mem_rest {path : Path} {front rest : List Path.Component}
    (shape : path.components = front ++ rest) (later : front ≠ []) :
    Path.Component.root ∉ rest := by
  have inner : Path.Component.root ∉ (Path.pieces path.bytes).filterMap Path.component? := by
    intro mem
    obtain ⟨piece, -, found⟩ := List.mem_filterMap.1 mem
    unfold Path.component? at found
    repeat' split at found
    all_goals simp at found
  intro mem
  have tail : Path.Component.root ∈ path.components.tail := by
    cases front with
    | nil => contradiction
    | cons first more =>
      rw [shape]
      exact List.mem_append_right more mem
  unfold Path.components at tail
  split at tail
  · exact inner tail
  · exact inner (List.mem_of_mem_tail tail)

/-! ## What systems promise -/

/-- A system with files. -/
structure FileSystem (σ : Type) where
  handle : Program.Handler Host σ
  directory : Location
  stands : σ → Location → Option FileEntry
  /-- The bytes that the file at a location has as soon as they are on the disk. -/
  written : σ → Location → Option (List UInt8)
  process : Nat
  serial : σ → UInt64

/-- The bytes of what stands somewhere, if it is a file. -/
def FileEntry.content : Option FileEntry → Option (List UInt8)
  | some (.file bytes) => some bytes
  | _ => none

theorem FileEntry.content_eq_some {entry : Option FileEntry} {bytes : List UInt8} :
    content entry = some bytes ↔ entry = some (.file bytes) := by
  unfold content
  split <;> simp_all

/-- Whether a request leaves everything where it is. -/
def Host.Request.Looks : Host.Request → Prop
  | .kind _ | .read _ | .ticket => True
  | _ => False

namespace FileSystem

variable {σ : Type} (system : FileSystem σ)

/-- The answer to a request. -/
def told (request : Host.Request) (state : σ) : Host.Answer request :=
  (system.handle request state).1

/-- The state after a request. -/
def after (request : Host.Request) (state : σ) : σ := (system.handle request state).2

/-- Where a path leads. -/
def leads (path : Path) : Location := Location.along system.directory path.components

/-- The files, each with its bytes. -/
def files (state : σ) (location : Location) : Option (List UInt8) :=
  FileEntry.content (system.stands state location)

/-- Whether a path comes by a location on its way, its end included. -/
def Passes (path : Path) (location : Location) : Prop :=
  ∃ front, front <+: path.components ∧ Location.along system.directory front = location

end FileSystem

/-- A system that keeps its promises about files. -/
structure Disk (σ : Type) extends FileSystem σ where
  here (state : σ) : stands state directory = some .directory
  above {state : σ} {location : Location} {entry : FileEntry}
    (there : stands state location = some entry) {outer : Location} (under : outer <+: location)
    (inner : outer ≠ location) : stands state outer = some .directory
  looks (request : Host.Request) (only : request.Looks) (state : σ) :
    stands (toFileSystem.after request state) = stands state
  read_ok {path : Path} {state : σ} {bytes : List UInt8}
    (answer : toFileSystem.told (.read path) state = Except.ok bytes) :
    stands state (toFileSystem.leads path) = some (.file bytes)
  read_notFound {path : Path} {state : σ}
    (answer : toFileSystem.told (.read path) state = Except.error Fault.notFound)
    (filled : path.components ≠ []) :
    ∃ place, toFileSystem.Passes path place ∧ stands state place = none
  kind_ok {path : Path} {state : σ} {kind : FileKind}
    (answer : toFileSystem.told (.kind path) state = Except.ok kind) :
    stands state (toFileSystem.leads path) ≠ none
  kind_notFound {path : Path} {state : σ}
    (answer : toFileSystem.told (.kind path) state = Except.error Fault.notFound)
    (filled : path.components ≠ []) :
    ∃ place, toFileSystem.Passes path place ∧ stands state place = none
  /-- Making directories, also in part, puts nothing in another's place. -/
  make (path : Path) (state : σ) (location : Location) :
    stands (toFileSystem.after (.makeDirectories path) state) location = stands state location ∨
      stands state location = none ∧
        stands (toFileSystem.after (.makeDirectories path) state) location = some .directory ∧
        toFileSystem.Passes path location
  make_ok {path : Path} {state : σ} {place : Location}
    (answer : toFileSystem.told (.makeDirectories path) state = Except.ok ())
    (passes : toFileSystem.Passes path place) :
    stands (toFileSystem.after (.makeDirectories path) state) place = some .directory
  create_ok {path : Path} {state : σ}
    (answer : toFileSystem.told (.createNew path) state = Except.ok ()) :
    path.fileName? ≠ none ∧ stands state (toFileSystem.leads path) = none ∧
      stands (toFileSystem.after (.createNew path) state) =
        Function.update (stands state) (toFileSystem.leads path) (some (.file []))
  create_error {path : Path} {state : σ} {fault : Fault}
    (answer : toFileSystem.told (.createNew path) state = Except.error fault) :
    stands (toFileSystem.after (.createNew path) state) = stands state
  create_taken {path : Path} {state : σ}
    (answer : toFileSystem.told (.createNew path) state = Except.error Fault.alreadyExists) :
    stands state (toFileSystem.leads path) ≠ none
  write_other (path : Path) (bytes : List UInt8) (state : σ) {location : Location}
    (other : location ≠ toFileSystem.leads path) :
    stands (toFileSystem.after (.write path bytes) state) location = stands state location
  write_here {path : Path} {state : σ} {old : List UInt8}
    (was : stands state (toFileSystem.leads path) = some (.file old)) (bytes : List UInt8) :
    ∃ new, stands (toFileSystem.after (.write path bytes) state) (toFileSystem.leads path) =
      some (.file new)
  write_ok {path : Path} {bytes : List UInt8} {state : σ}
    (answer : toFileSystem.told (.write path bytes) state = Except.ok ()) :
    written (toFileSystem.after (.write path bytes) state) (toFileSystem.leads path) = some bytes
  sync_other (path : Path) (state : σ) {location : Location}
    (other : location ≠ toFileSystem.leads path) :
    stands (toFileSystem.after (.sync path) state) location = stands state location
  sync_ok {path : Path} {state : σ} {bytes : List UInt8}
    (answer : toFileSystem.told (.sync path) state = Except.ok ())
    (was : written state (toFileSystem.leads path) = some bytes) :
    stands (toFileSystem.after (.sync path) state) (toFileSystem.leads path) = some (.file bytes)
  rename_ok {source target : Path} {state : σ} {bytes : List UInt8}
    (answer : toFileSystem.told (.rename source target) state = Except.ok ())
    (was : stands state (toFileSystem.leads source) = some (.file bytes))
    (moves : toFileSystem.leads source ≠ toFileSystem.leads target) :
    stands state (toFileSystem.leads target) ≠ some .directory ∧
      stands (toFileSystem.after (.rename source target) state) =
        Function.update (Function.update (stands state) (toFileSystem.leads source) none)
          (toFileSystem.leads target) (some (.file bytes))
  rename_error {source target : Path} {state : σ} {fault : Fault}
    (answer : toFileSystem.told (.rename source target) state = Except.error fault) :
    stands (toFileSystem.after (.rename source target) state) = stands state
  remove_ok {path : Path} {state : σ}
    (answer : toFileSystem.told (.remove path) state = Except.ok ()) :
    (∃ bytes, stands state (toFileSystem.leads path) = some (.file bytes)) ∧
      stands (toFileSystem.after (.remove path) state) =
        Function.update (stands state) (toFileSystem.leads path) none
  remove_error {path : Path} {state : σ} {fault : Fault}
    (answer : toFileSystem.told (.remove path) state = Except.error fault) :
    stands (toFileSystem.after (.remove path) state) = stands state
  remove_notFound {path : Path} {state : σ}
    (answer : toFileSystem.told (.remove path) state = Except.error Fault.notFound)
    (filled : path.components ≠ []) :
    ∃ place, toFileSystem.Passes path place ∧ stands state place = none
  ticket (state : σ) : toFileSystem.told .ticket state = (process, serial state)
  /-- The numbers are counted, and after the last one comes the first. -/
  serial_ticket (state : σ) : serial (toFileSystem.after .ticket state) = serial state + 1
  serial_other (request : Host.Request) (other : request ≠ .ticket) (state : σ) :
    serial (toFileSystem.after request state) = serial state

namespace Disk

variable {σ : Type} (disk : Disk σ) {state later : σ}

/-- Whether components leave by `..` only directories that are there. -/
def Straight (state : σ) (components : List Path.Component) : Prop :=
  ∀ front rest, components = front ++ .up :: rest →
    disk.stands state (Location.along disk.directory front) = some .directory

theorem straight_of_not_mem {components : List Path.Component} (inner : .up ∉ components) :
    disk.Straight state components := by
  intro front rest shape
  exact absurd (shape ▸ List.mem_append_right front List.mem_cons_self) inner

/-- Names do not leave directories. -/
theorem Straight.append {components more : List Path.Component} {disk : Disk σ}
    (straight : disk.Straight state components) (names : .up ∉ more) :
    disk.Straight state (components ++ more) := by
  intro front rest shape
  rcases List.append_eq_append_iff.1 shape with ⟨between, rfl, tail⟩ | ⟨between, rfl, tail⟩
  · exact absurd (tail ▸ List.mem_append_right between List.mem_cons_self) names
  · cases between with
    | nil =>
      rw [List.nil_append] at tail
      exact absurd (tail ▸ List.mem_cons_self) names
    | cons component between =>
      obtain ⟨rfl, -⟩ := List.cons.inj tail
      exact straight front between rfl

/-- A straight way stays straight while directories stay. -/
theorem Straight.mono {components : List Path.Component} {disk : Disk σ}
    (straight : disk.Straight state components)
    (kept : ∀ location, disk.stands state location = some .directory →
      disk.stands later location = some .directory) : disk.Straight later components :=
  fun front rest shape => kept _ (straight front rest shape)

/-- A way on which directories were made is straight. -/
theorem straight_of_made {path : Path} {components : List Path.Component}
    (made : disk.told (.makeDirectories path) state = Except.ok ())
    (under : components <+: path.components) :
    disk.Straight (disk.after (.makeDirectories path) state) components := by
  intro front rest shape
  have inner : front <+: components := shape ▸ List.prefix_append front _
  exact disk.make_ok made ⟨front, inner.trans under, rfl⟩

/-- What is missing on a straight way lies above its end. -/
theorem above_of_missing {path : Path} (straight : disk.Straight state path.components)
    {place : Location} (passes : disk.Passes path place)
    (missing : disk.stands state place = none) : place <+: disk.leads path := by
  obtain ⟨front, ⟨rest, shape⟩, rfl⟩ := passes
  have later : front ≠ [] := by
    rintro rfl
    exact absurd (missing.symm.trans (disk.here state)) nofun
  have stays : ∀ before after, rest = before ++ .up :: after →
      Location.along (Location.along disk.directory front) before ≠
        Location.along disk.directory front := by
    intro before after cut same
    have left := straight (front ++ before) after (by rw [← shape, cut, List.append_assoc])
    rw [Location.along_append, same, missing] at left
    contradiction
  have under := Location.under_along List.prefix_rfl (Path.root_not_mem_rest shape.symm later) stays
  rwa [← Location.along_append, shape] at under

/-- Who misses something on a straight way finds nothing at its end. -/
theorem missing_of_passes {path : Path} (straight : disk.Straight state path.components)
    {place : Location} (passes : disk.Passes path place)
    (missing : disk.stands state place = none) : disk.stands state (disk.leads path) = none := by
  have under := disk.above_of_missing straight passes missing
  cases there : disk.stands state (disk.leads path) with
  | none => rfl
  | some entry =>
    by_cases same : place = disk.leads path
    · rw [same, there] at missing
      contradiction
    · have above := disk.above there under same
      rw [missing] at above
      contradiction

end Disk

end LocaleWatch
