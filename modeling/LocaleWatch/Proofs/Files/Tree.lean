import LocaleWatch.FileTree.Access
import LocaleWatch.Proofs.Files.Disk
import LocaleWatch.Proofs.Files.Endings
import Mathlib.Data.List.Infix

/-!
# Trees and paths

What an access to a file tree finds and changes is told by where its path leads. That is the
location at the end of the path's components, if everything on the way is there; and everything
is there on the way to something that stands, since whatever stands somewhere stands in
directories. No access disturbs this order.

## Main results

* `FileTree.locate_ok`, `FileTree.locate_error` — where a path leads, and why it may lead nowhere.
* `FileTree.makeAlong_spec` — directories that are made on a way take nobody's place.
* `FileTree.Orderly.put`, `FileTree.Orderly.rename` — accesses keep trees in order.
-/

namespace LocaleWatch

namespace FileTree

/-- Whether everything stands in directories. -/
structure Connected (tree : FileTree) : Prop where
  above : ∀ {location entry}, tree.get? location = some entry →
    ∀ {outer}, outer <+: location → outer ≠ location → tree.get? outer = some .directory

variable {tree : FileTree} {here location : Location}

/-- What stands below the root is an entry. -/
theorem mem_entries_of_get? {entry : FileEntry} (there : tree.get? location = some entry)
    (filled : location ≠ []) : (location, entry) ∈ tree.entries := by
  rw [get?, if_neg filled] at there
  obtain ⟨before, after, shape, -⟩ := List.lookup_eq_some_iff.1 there
  rw [shape]
  exact List.mem_append_right before List.mem_cons_self

/-- A tree is connected if above each of its entries there are directories. -/
theorem connected_of_entries
    (each : ∀ item ∈ tree.entries, ∀ outer ∈ item.1.inits, outer ≠ item.1 →
      tree.get? outer = some .directory) : tree.Connected := by
  refine ⟨fun {location entry} there {outer} under inner => ?_⟩
  by_cases top : location = []
  · subst top
    exact absurd (List.prefix_nil.1 under) inner
  · exact each _ (mem_entries_of_get? there top) outer ((List.mem_inits outer location).2 under)
      inner

/-- A location that is no directory is not the root. -/
theorem ne_nil_of_get?_ne (other : tree.get? location ≠ some .directory) : location ≠ [] := by
  rintro rfl
  exact other rfl

/-- Above a directory there is a directory. -/
theorem Connected.up (connected : tree.Connected) (there : tree.get? here = some .directory) :
    tree.get? here.dropLast = some .directory := by
  by_cases top : here = []
  · rw [top]
    rfl
  · refine connected.above there (List.dropLast_prefix here) fun same => ?_
    have shorter := congrArg List.length same
    have : 0 < here.length := List.length_pos_iff.2 top
    rw [List.length_dropLast] at shorter
    omega

/-- What is put into a directory leaves everything in directories, unless it replaces one. -/
theorem Connected.put (connected : tree.Connected) (inner : location ≠ [])
    (parent : tree.get? location.dropLast = some .directory) {entry : FileEntry}
    (leaf : entry = .directory ∨ tree.get? location ≠ some .directory) :
    (tree.put location entry).Connected := by
  refine ⟨fun {other found} there outer under within => ?_⟩
  by_cases same : other = location
  · subst same
    have above : tree.get? outer = some .directory := by
      by_cases direct : outer = other.dropLast
      · rw [direct, parent]
      · exact connected.above parent (Location.under_dropLast under within) direct
    rwa [get?_put_of_ne tree within]
  · rw [get?_put_of_ne tree same] at there
    have above := connected.above there under within
    by_cases here : outer = location
    · subst here
      rcases leaf with rfl | other
      · exact get?_put_self tree inner .directory
      · exact absurd above other
    · rwa [get?_put_of_ne tree here]

/-- What a file was removed from still has everything in directories. -/
theorem Connected.erase (connected : tree.Connected) {bytes : List UInt8}
    (isFile : tree.get? location = some (.file bytes)) : (tree.erase location).Connected := by
  have inner : location ≠ [] := by
    rintro rfl
    simp [get?] at isFile
  refine ⟨fun {other found} there outer under within => ?_⟩
  have elsewhere : other ≠ location := by
    rintro rfl
    rw [get?_erase_self tree inner] at there
    contradiction
  rw [get?_erase_of_ne tree elsewhere] at there
  have above := connected.above there under within
  rwa [get?_erase_of_ne tree (fun same => by simp [same, isFile] at above)]

/-! ## Where a path leads -/

theorem get?_of_enter (entered : tree.enter here = .ok ()) : tree.get? here = some .directory := by
  unfold enter at entered
  split at entered <;> first | assumption | cases entered

/-- Who follows components enters the first directory and goes on behind the first component. -/
theorem follow_cons {component : Path.Component} {rest : List Path.Component}
    (followed : tree.follow here (component :: rest) = .ok location) :
    tree.get? here = some .directory ∧
      tree.follow (Location.step here component) rest = .ok location := by
  unfold follow at followed
  cases entered : tree.enter here with
  | error fault =>
    rw [entered] at followed
    contradiction
  | ok value =>
    rw [entered] at followed
    refine ⟨get?_of_enter entered, ?_⟩
    cases component with
    | root => exact followed
    | up => exact followed
    | name name =>
      change (if nameLimit < name.length then _ else _) = _ at followed
      split at followed
      · contradiction
      · exact followed

/-- A name that is not too long leads on from a directory. -/
theorem follow_name {name : List UInt8} {rest : List Path.Component}
    (there : tree.get? here = some .directory) (short : name.length ≤ nameLimit) :
    tree.follow here (.name name :: rest) = tree.follow (here ++ [name]) rest := by
  rw [follow, enter, there]
  exact if_neg (Nat.not_lt.2 short)

/-- Who follows components comes to where they lead: to a directory, or to a name in one. -/
theorem follow_ok (connected : tree.Connected) {components : List Path.Component}
    (there : tree.get? here = some .directory)
    (followed : tree.follow here components = .ok location) :
    location = Location.along here components ∧
      (tree.get? location = some .directory ∨ ∃ front name, components = front ++ [.name name] ∧
        tree.get? location.dropLast = some .directory) := by
  induction components generalizing here with
  | nil =>
    unfold follow at followed
    cases followed
    exact ⟨rfl, .inl there⟩
  | cons component rest ih =>
    obtain ⟨-, behind⟩ := follow_cons followed
    cases rest with
    | nil =>
      have same : location = Location.step here component := by
        unfold follow at behind
        exact (Except.ok.inj behind).symm
      subst same
      refine ⟨rfl, ?_⟩
      cases component with
      | root => exact .inl rfl
      | up => exact .inl (connected.up there)
      | name name => exact .inr ⟨[], name, rfl, by rwa [Location.step, List.dropLast_concat]⟩
    | cons next more =>
      obtain ⟨same, place⟩ := ih (follow_cons behind).1 behind
      refine ⟨same, place.imp_right ?_⟩
      rintro ⟨front, name, shape, parent⟩
      exact ⟨component :: front, name, by rw [shape, List.cons_append], parent⟩

/-- Who finds nothing on the way misses a directory on it. -/
theorem missing_of_follow {components : List Path.Component}
    (followed : tree.follow here components = .error .notFound) :
    ∃ front, front <+: components ∧ tree.get? (Location.along here front) = none := by
  induction components generalizing here with
  | nil =>
    unfold follow at followed
    contradiction
  | cons component rest ih =>
    unfold follow at followed
    cases entered : tree.enter here with
    | error fault =>
      rw [entered] at followed
      cases followed
      refine ⟨[], List.nil_prefix, ?_⟩
      unfold enter at entered
      split at entered <;> first | assumption | cases entered
    | ok value =>
      rw [entered] at followed
      have behind : tree.follow (Location.step here component) rest = .error .notFound := by
        cases component with
        | root => exact followed
        | up => exact followed
        | name name =>
          change (if nameLimit < name.length then _ else _) = _ at followed
          split at followed
          · cases followed
          · exact followed
      obtain ⟨front, under, missing⟩ := ih behind
      exact ⟨component :: front, (List.prefix_cons_inj component).2 under, missing⟩

/-- Directories that are made on a way take nobody's place. -/
theorem makeAlong_spec (connected : tree.Connected) (components : List Path.Component)
    (there : tree.get? here = some .directory) :
    (tree.makeAlong here components).2.Connected ∧ ∀ location,
      (tree.makeAlong here components).2.get? location = tree.get? location ∨
        tree.get? location = none ∧
          (tree.makeAlong here components).2.get? location = some .directory ∧
          ∃ front, front <+: components ∧ Location.along here front = location := by
  induction components generalizing tree here with
  | nil => exact ⟨connected, fun _ => .inl rfl⟩
  | cons component rest ih =>
    have seen {next : FileTree} (made : next.Connected ∧ ∀ location,
        next.get? location = tree.get? location ∨ tree.get? location = none ∧
          next.get? location = some .directory ∧
          ∃ front, front <+: rest ∧
            Location.along (Location.step here component) front = location) :
        next.Connected ∧ ∀ location, next.get? location = tree.get? location ∨
          tree.get? location = none ∧ next.get? location = some .directory ∧
          ∃ front, front <+: component :: rest ∧ Location.along here front = location := by
      refine ⟨made.1, fun location => (made.2 location).imp_right ?_⟩
      rintro ⟨free, now, front, under, leads⟩
      exact ⟨free, now, component :: front, (List.prefix_cons_inj component).2 under, leads⟩
    cases component with
    | root => exact seen (ih connected rfl)
    | up => exact seen (ih connected (connected.up there))
    | name name =>
      unfold makeAlong
      split
      · exact ⟨connected, fun _ => .inl rfl⟩
      · dsimp only
        split
        · next isThere => exact seen (ih connected isThere)
        · exact ⟨connected, fun _ => .inl rfl⟩
        · next free =>
          have inner : here ++ [name] ≠ [] := by simp
          have parent : tree.get? (here ++ [name]).dropLast = some .directory := by
            rwa [List.dropLast_concat]
          have now := get?_put_self tree inner .directory
          obtain ⟨whole, others⟩ := ih (connected.put inner parent (.inl rfl)) now
          refine ⟨whole, fun location => ?_⟩
          by_cases same : location = here ++ [name]
          · subst same
            refine .inr ⟨free, ?_, [.name name], by simp, rfl⟩
            rcases others (here ++ [name]) with kept | ⟨missing, -⟩
            · exact kept.trans now
            · exact absurd (now.symm.trans missing) nofun
          · rw [← get?_put_of_ne tree same .directory]
            refine (others location).imp_right ?_
            rintro ⟨free, made, front, under, leads⟩
            exact ⟨free, made, .name name :: front, (List.prefix_cons_inj _).2 under, leads⟩

/-- Directories that were made on a way are there, all of them. -/
theorem makeAlong_ok (connected : tree.Connected) {components front : List Path.Component}
    (there : tree.get? here = some .directory)
    (made : (tree.makeAlong here components).1 = .ok ()) (under : front <+: components) :
    (tree.makeAlong here components).2.get? (Location.along here front) = some .directory := by
  induction components generalizing tree here front with
  | nil =>
    rw [List.prefix_nil.1 under]
    exact there
  | cons component rest ih =>
    cases front with
    | nil =>
      rcases (makeAlong_spec connected (component :: rest) there).2 here with same | ⟨missing, -⟩
      · exact same.trans there
      · rw [there] at missing
        contradiction
    | cons first more =>
      obtain ⟨rfl, inner⟩ := List.cons_prefix_cons.1 under
      cases first with
      | root => exact ih connected rfl made inner
      | up => exact ih connected (connected.up there) made inner
      | name name =>
        unfold makeAlong at made ⊢
        split at made
        · cases made
        · next short =>
          rw [if_neg short]
          dsimp only at made ⊢
          split at made
          · next isThere => exact ih connected isThere made inner
          · cases made
          · next free =>
            have filled : here ++ [name] ≠ [] := by simp
            have parent : tree.get? (here ++ [name]).dropLast = some .directory := by
              rwa [List.dropLast_concat]
            exact ih (connected.put filled parent (.inl rfl))
              (get?_put_self tree filled .directory) made inner

/-! ## Accesses -/

/-- A sequence of checks is passed by passing each. -/
theorem bind_eq_ok {α β : Type} {first : Except Fault α} {next : α → Except Fault β}
    {value : β} (passed : first >>= next = .ok value) :
    ∃ given, first = .ok given ∧ next given = .ok value := by
  cases first with
  | error fault => cases passed
  | ok given => exact ⟨given, rfl, passed⟩

/-- A sequence of checks fails in one of them. -/
theorem bind_eq_error {α β : Type} {first : Except Fault α} {next : α → Except Fault β}
    {fault : Fault} (failed : first >>= next = .error fault) :
    first = .error fault ∨ ∃ given, first = .ok given ∧ next given = .error fault := by
  cases first with
  | error fault =>
    cases failed
    exact .inl rfl
  | ok given => exact .inr ⟨given, rfl, failed⟩

/-- What following components and looking at a path can fail with. -/
def Strays (fault : Fault) : Prop :=
  fault = .notFound ∨ fault = .notADirectory ∨ fault = .nameTooLong ∨ fault = .nulInPath

variable {directory : Location} {path : Path}

theorem strays_of_follow {components : List Path.Component} {fault : Fault}
    (failed : tree.follow here components = .error fault) : Strays fault := by
  induction components generalizing here with
  | nil =>
    unfold follow at failed
    cases failed
  | cons component rest ih =>
    unfold follow at failed
    rcases bind_eq_error failed with entered | ⟨-, -, behind⟩
    · unfold enter at entered
      split at entered <;> cases entered
      · exact .inr (.inl rfl)
      · exact .inl rfl
    · cases component with
      | root => exact ih behind
      | up => exact ih behind
      | name name =>
        dsimp only at behind
        split at behind
        · cases behind
          exact .inr (.inr (.inl rfl))
        · exact ih behind

/-- Where a path leads, and what can stand there. -/
theorem locate_ok (connected : tree.Connected) (there : tree.get? directory = some .directory)
    (located : tree.locate directory path = .ok location) :
    location = Location.along directory path.components ∧
      (tree.get? location ≠ some .directory → path.fileName? ≠ none ∧ location ≠ [] ∧
        tree.get? location.dropLast = some .directory) := by
  obtain ⟨-, -, rest⟩ := bind_eq_ok located
  obtain ⟨place, followed, last⟩ := bind_eq_ok rest
  have same : place = location := by
    dsimp only at last
    split at last
    · split at last
      · cases last
      · exact Except.ok.inj last
    · exact Except.ok.inj last
  subst same
  obtain ⟨same, stands⟩ := follow_ok connected there followed
  refine ⟨same, fun other => ?_⟩
  rcases stands with isThere | ⟨front, name, shape, parent⟩
  · exact absurd isThere other
  · refine ⟨?_, ne_nil_of_get?_ne other, parent⟩
    rw [Path.fileName?, shape, List.getLast?_concat]
    exact nofun

/-- Who is not led to a place strays on the way. -/
theorem locate_error {fault : Fault} (failed : tree.locate directory path = .error fault) :
    Strays fault ∧ (fault = .notFound → path.components ≠ [] →
      ∃ front, front <+: path.components ∧ tree.get? (Location.along directory front) = none) := by
  rcases bind_eq_error failed with checked | ⟨-, -, rest⟩
  · unfold checkPath at checked
    split at checked
    · cases checked
      exact ⟨.inr (.inr (.inr rfl)), by simp⟩
    · split at checked
      · next empty =>
        cases checked
        exact ⟨.inl rfl, fun _ filled =>
          absurd (Path.components_of_empty (List.isEmpty_iff.1 empty)) filled⟩
      · split at checked
        · cases checked
          exact ⟨.inr (.inr (.inl rfl)), by simp⟩
        · cases checked
  · rcases bind_eq_error rest with followed | ⟨place, -, last⟩
    · exact ⟨strays_of_follow followed, fun same _ => missing_of_follow (same ▸ followed)⟩
    · dsimp only at last
      split at last
      · split at last
        · cases last
          exact ⟨.inr (.inl rfl), by simp⟩
        · cases last
      · cases last

/-- What is there is found where its path leads. -/
theorem existing_ok (found : tree.existing directory path = .ok location) :
    tree.locate directory path = .ok location := by
  obtain ⟨place, located, last⟩ := bind_eq_ok found
  split at last
  · exact located.trans last
  · cases last

/-- A file is opened for writing where its path leads. -/
theorem writable_ok {entry : Option FileEntry}
    (opened : tree.writable directory path = .ok (location, entry)) :
    tree.locate directory path = .ok location ∧ tree.get? location = entry := by
  obtain ⟨place, located, last⟩ := bind_eq_ok opened
  dsimp only at last
  split at last
  · cases last
  · cases last
    exact ⟨located, rfl⟩

/-- A path that cannot be opened is not taken. -/
theorem writable_error {fault : Fault} (failed : tree.writable directory path = .error fault) :
    fault ≠ .alreadyExists := by
  rcases bind_eq_error failed with unlocated | ⟨place, -, last⟩
  · rintro rfl
    obtain strays | strays | strays | strays := (locate_error unlocated).1 <;> cases strays
  · dsimp only at last
    split at last
    · cases last
      exact nofun
    · cases last

theorem read_ok {bytes : List UInt8} (got : tree.read directory path = .ok bytes) :
    ∃ location, tree.locate directory path = .ok location ∧
      tree.get? location = some (.file bytes) := by
  obtain ⟨entry, looked, last⟩ := bind_eq_ok got
  obtain ⟨location, located, same⟩ := bind_eq_ok looked
  cases same
  split at last
  · next stands =>
    cases last
    exact ⟨location, located, stands⟩
  · cases last
  · cases last

/-- Nothing is found at a path if something is missing on its way, its end included. -/
theorem entry?_none (connected : tree.Connected) (there : tree.get? directory = some .directory)
    (looked : tree.entry? directory path = .ok none) :
    ∃ front, front <+: path.components ∧ tree.get? (Location.along directory front) = none := by
  obtain ⟨location, located, same⟩ := bind_eq_ok looked
  have leads := (locate_ok connected there located).1
  exact ⟨path.components, List.prefix_rfl, leads ▸ Except.ok.inj same⟩

theorem read_notFound (connected : tree.Connected) (there : tree.get? directory = some .directory)
    (filled : path.components ≠ []) (got : tree.read directory path = .error .notFound) :
    ∃ front, front <+: path.components ∧ tree.get? (Location.along directory front) = none := by
  rcases bind_eq_error got with failed | ⟨entry, looked, last⟩
  · rcases bind_eq_error failed with unlocated | ⟨location, -, same⟩
    · exact (locate_error unlocated).2 rfl filled
    · cases same
  · split at last
    · cases last
    · cases last
    · exact entry?_none connected there looked

/-- A new file is put into a free place. -/
theorem createNew_ok {next : FileTree} (made : tree.createNew directory path = .ok next) :
    ∃ location, tree.locate directory path = .ok location ∧ tree.get? location = none ∧
      next = tree.put location (.file []) := by
  obtain ⟨⟨location, entry⟩, opened, last⟩ := bind_eq_ok made
  obtain ⟨located, stands⟩ := writable_ok opened
  split at last
  · next same =>
    cases same
    cases last
    exact ⟨location, located, stands, rfl⟩
  · cases last

/-- A place is taken by what stands there. -/
theorem createNew_taken (failed : tree.createNew directory path = .error .alreadyExists) :
    ∃ location, tree.locate directory path = .ok location ∧ tree.get? location ≠ none := by
  rcases bind_eq_error failed with unopened | ⟨⟨location, entry⟩, opened, last⟩
  · exact absurd rfl (writable_error unopened)
  · obtain ⟨located, stands⟩ := writable_ok opened
    split at last
    · cases last
    · next same =>
      cases same
      exact ⟨location, located, by rw [stands]; exact nofun⟩

/-- No file is made where something stands. -/
theorem createNew_of_get? {entry : FileEntry} (checked : checkPath path = .ok ())
    (followed : tree.follow directory path.components = .ok location)
    (isLeaf : namesDirectory path = false) (there : tree.get? location = some entry) :
    tree.createNew directory path = .error .alreadyExists := by
  have located : tree.locate directory path = .ok location := by
    rw [locate, checked]
    simp [followed, isLeaf, bind, Except.bind, pure, Except.pure]
  have opened : tree.writable directory path = .ok (location, some entry) := by
    rw [writable, located]
    simp [isLeaf, there, bind, Except.bind, pure, Except.pure]
  rw [createNew, opened]
  rfl

/-- A path that ends with a byte of a name may lead to a file. -/
theorem namesDirectory_of_getLast? {b : UInt8} (ends : path.bytes.getLast? = some b)
    (letter : b ≠ slash ∧ b ≠ fullStop) : namesDirectory path = false := by
  obtain ⟨front, last, shape, leads, inside, byte⟩ :=
    Path.exists_lastPiece_of_getLast? ends letter.1
  have piece : (Path.pieces path.bytes).getLastD [] = last := by
    rcases leads with rfl | ⟨outer, rfl⟩
    · rw [shape, List.nil_append, Path.pieces_of_not_mem inside]
      rfl
    · rw [shape, List.append_assoc, List.singleton_append, Path.pieces_append_slash,
        Path.pieces_of_not_mem inside, List.getLastD_concat]
  rw [namesDirectory, piece, Bool.or_eq_false_iff]
  refine ⟨?_, decide_eq_false ?_⟩
  · cases last with
    | nil => cases byte
    | cons first rest => rfl
  · rintro rfl
    exact letter.2 (Option.some.inj byte).symm

theorem write_ok {next : FileTree} {bytes : List UInt8}
    (wrote : tree.write directory path bytes = .ok next) :
    ∃ location old, tree.locate directory path = .ok location ∧
      tree.get? location = some (.file old) ∧ next = tree.put location (.file bytes) := by
  obtain ⟨⟨location, entry⟩, opened, last⟩ := bind_eq_ok wrote
  obtain ⟨located, stands⟩ := writable_ok opened
  split at last
  · next same =>
    cases same
    cases last
    exact ⟨location, _, located, stands, rfl⟩
  · cases last
  · cases last

theorem openFile_ok {next : FileTree}
    (opened : tree.openFile directory path = .ok (location, next)) :
    next = tree ∨ tree.locate directory path = .ok location ∧ tree.get? location = none ∧
      next = tree.put location (.file []) := by
  obtain ⟨⟨place, entry⟩, opened, last⟩ := bind_eq_ok opened
  obtain ⟨located, stands⟩ := writable_ok opened
  split at last
  · next same =>
    cases same
    cases last
    exact .inr ⟨located, stands, rfl⟩
  · cases last
    exact .inl rfl
  · cases last

/-- A file that is renamed goes from its place to the other one, which is no directory. -/
theorem rename_ok {next : FileTree} {target : Path}
    (renamed : tree.rename directory path target = .ok next) :
    ∃ start goal bytes, tree.locate directory path = .ok start ∧
      tree.locate directory target = .ok goal ∧ tree.get? start = some (.file bytes) ∧
      tree.get? goal ≠ some .directory ∧ next = (tree.erase start).put goal (.file bytes) := by
  obtain ⟨start, found, rest⟩ := bind_eq_ok renamed
  obtain ⟨goal, located, last⟩ := bind_eq_ok rest
  dsimp only at last
  split at last
  · next stands =>
    split at last
    · cases last
    · split at last
      · cases last
      · next other =>
        cases last
        exact ⟨start, goal, _, existing_ok found, located, stands, other, rfl⟩
  · cases last

theorem remove_ok {next : FileTree} (removed : tree.remove directory path = .ok next) :
    ∃ location bytes, tree.locate directory path = .ok location ∧
      tree.get? location = some (.file bytes) ∧ next = tree.erase location := by
  obtain ⟨location, found, last⟩ := bind_eq_ok removed
  split at last
  · next stands =>
    cases last
    exact ⟨location, _, existing_ok found, stands, rfl⟩
  · cases last

theorem remove_notFound (connected : tree.Connected)
    (there : tree.get? directory = some .directory) (filled : path.components ≠ [])
    (failed : tree.remove directory path = .error .notFound) :
    ∃ front, front <+: path.components ∧ tree.get? (Location.along directory front) = none := by
  rcases bind_eq_error failed with absent | ⟨location, -, last⟩
  · rcases bind_eq_error absent with unlocated | ⟨location, located, last⟩
    · exact (locate_error unlocated).2 rfl filled
    · split at last
      · cases last
      · next nothing =>
        have leads := (locate_ok connected there located).1
        exact ⟨path.components, List.prefix_rfl, leads ▸ nothing⟩
  · split at last <;> cases last

/-! ## Trees in order -/

/-- Whether everything stands in directories and a directory to start from is there. -/
structure Orderly (directory : Location) (tree : FileTree) : Prop where
  connected : tree.Connected
  there : tree.get? directory = some .directory

namespace Orderly

/-- A file that is put where a path leads keeps the order, unless it replaces a directory. -/
theorem put (orderly : Orderly directory tree)
    (located : tree.locate directory path = .ok location)
    (noDirectory : tree.get? location ≠ some .directory) (bytes : List UInt8) :
    Orderly directory (tree.put location (.file bytes)) := by
  obtain ⟨-, inner, parent⟩ := (locate_ok orderly.connected orderly.there located).2 noDirectory
  have elsewhere : directory ≠ location := by
    rintro rfl
    exact noDirectory orderly.there
  exact ⟨orderly.connected.put inner parent (.inr noDirectory),
    (get?_put_of_ne tree elsewhere _).trans orderly.there⟩

/-- A file that is removed keeps the order. -/
theorem erase (orderly : Orderly directory tree) {bytes : List UInt8}
    (isFile : tree.get? location = some (.file bytes)) :
    Orderly directory (tree.erase location) := by
  have elsewhere : directory ≠ location := by
    rintro rfl
    exact absurd (orderly.there.symm.trans isFile) nofun
  exact ⟨orderly.connected.erase isFile, (get?_erase_of_ne tree elsewhere).trans orderly.there⟩

theorem makeAlong (orderly : Orderly directory tree) (components : List Path.Component) :
    Orderly directory (tree.makeAlong directory components).2 := by
  obtain ⟨connected, others⟩ := makeAlong_spec orderly.connected components orderly.there
  refine ⟨connected, ?_⟩
  rcases others directory with same | ⟨missing, -⟩
  · exact same.trans orderly.there
  · exact absurd (orderly.there.symm.trans missing) nofun

theorem rename (orderly : Orderly directory tree) {target : Path} {next : FileTree}
    (renamed : tree.rename directory path target = .ok next) : Orderly directory next := by
  obtain ⟨start, goal, bytes, -, located, isFile, noDirectory, rfl⟩ := rename_ok renamed
  obtain ⟨-, inner, parent⟩ := (locate_ok orderly.connected orderly.there located).2 noDirectory
  have erased := orderly.erase isFile
  have elsewhere : directory ≠ goal := by
    rintro rfl
    exact noDirectory orderly.there
  have noDirectory : (tree.erase start).get? goal ≠ some .directory := by
    by_cases same : goal = start
    · subst same
      rw [get?_erase_self tree inner]
      exact nofun
    · rwa [get?_erase_of_ne tree same]
  have parent : (tree.erase start).get? goal.dropLast = some .directory := by
    rw [get?_erase_of_ne tree, parent]
    rintro same
    rw [same, isFile] at parent
    cases parent
  exact ⟨erased.connected.put inner parent (.inr noDirectory),
    (get?_put_of_ne _ elsewhere _).trans erased.there⟩

end Orderly

end FileTree

end LocaleWatch
