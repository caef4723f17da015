import LocaleWatch.Proofs.Git.Trees
import Mathlib.Data.List.Nodup

/-!
# Walks through a directory

A system gives the entries of a directory in no particular order, and not in the same order when it
is asked again. Whoever walks through all directories below one should find each file once, and
give the same answer every time.

So it is, as long as every directory can be read: what is listed are the paths of all entries but
directories, without those that have a component `.git`. A link is listed and not followed. Paths
are compared as text, which is the order of their bytes. Is one path no text, there is no listing at
all, so that no file is passed over.

Where the walk can not even start since nothing stands there, nothing is listed. All other faults
are reported, and so is this one if something stands there after all.

## Main results

* `DirectoryTree.Lists.located` — a walk finds each file once, whatever the order of the entries.
* `DirectoryTree.each_file_listed_once` — what is listed while the main branch is checked out.
-/

namespace LocaleWatch

open Text

/-! ## Directories -/

/-- What an entry of a directory is. -/
inductive NodeKind where
  | file
  | link
  | directory
  deriving DecidableEq

/-- What stands below a directory, each entry by the names that lead there from it. -/
structure DirectoryTree where
  nodes : List (Location × NodeKind)
  once : (nodes.map Prod.fst).Nodup
  named : ∀ node ∈ nodes, node.1 ≠ [] ∧ ∀ name ∈ node.1, name ≠ [] ∧ slash ∉ name
  inside : ∀ node ∈ nodes, node.1.dropLast = [] ∨ (node.1.dropLast, .directory) ∈ nodes

namespace DirectoryTree

variable (tree : DirectoryTree)

/-- Where the entries of a directory are. -/
def children (here : Location) : List Location :=
  (tree.nodes.map Prod.fst).filter fun place => place.dropLast = here

/-- Where all entries are that are no directories and do not belong to the version-control
program. -/
def leaves : List Location :=
  (tree.nodes.filter fun node => node.2 ≠ .directory ∧ Listing.metadataName ∉ node.1).map Prod.fst

/-- The paths of these entries from the top. -/
def paths : List Path :=
  tree.leaves.map fun place => ⟨[slash].intercalate place⟩

/-- What a walk may find at a place: the entries of each directory in any order. What belongs to the
version-control program may look like anything. -/
inductive Lists (tree : DirectoryTree) : Location → Listing → Prop where
  | leaf {here : Location} (kind : NodeKind) :
      kind ≠ .directory → (here, kind) ∈ tree.nodes → Lists tree here .file
  | directory {here : Location} {entries : List (List UInt8 × Listing)} :
      here = [] ∨ (here, .directory) ∈ tree.nodes →
      (entries.map fun entry => here ++ [entry.1]).Perm (tree.children here) →
      (∀ entry ∈ entries, entry.1 ≠ Listing.metadataName →
        Lists tree (here ++ [entry.1]) entry.2) →
      Lists tree here (.directory entries)

/-- A system shows a tree to whoever walks from a path. It may do so in another order each time. -/
structure IsShown {σ : Type} (handler : Program.Handler Host σ) (top : Path) : Prop where
  goesOn : ∀ state, (handler .isCancelled state).1 = false
  walk : ∀ state, tree.Lists [] (handler (.walk top) state).1

variable {tree : DirectoryTree} {here place : Location} {kind other : NodeKind}

theorem mem_leaves :
    place ∈ tree.leaves ↔
      (∃ kind, (place, kind) ∈ tree.nodes ∧ kind ≠ .directory) ∧ Listing.metadataName ∉ place := by
  constructor
  · intro mem
    obtain ⟨⟨_, kind⟩, kept, rfl⟩ := List.mem_map.1 mem
    obtain ⟨known, leaf, outside⟩ := by simpa using List.mem_filter.1 kept
    exact ⟨⟨kind, known, leaf⟩, outside⟩
  · rintro ⟨⟨kind, known, leaf⟩, outside⟩
    exact List.mem_map.2 ⟨(place, kind), List.mem_filter.2 ⟨known, by simp [leaf, outside]⟩, rfl⟩

theorem nodup_leaves : tree.leaves.Nodup :=
  tree.once.sublist (List.filter_sublist.map Prod.fst)

theorem mem_children {child : Location} :
    child ∈ tree.children here ↔ (∃ kind, (child, kind) ∈ tree.nodes) ∧ child.dropLast = here := by
  simp [children]

theorem nodup_children : (tree.children here).Nodup := tree.once.filter _

/-- Where one entry stands, no other one does. -/
theorem kind_unique (mem : (place, kind) ∈ tree.nodes) (mem' : (place, other) ∈ tree.nodes) :
    kind = other :=
  congrArg Prod.snd (List.inj_on_of_nodup_map tree.once mem mem' rfl)

/-- On the way to an entry are directories. -/
theorem directory_of_prefix {front rest : Location} (mem : (front ++ rest, kind) ∈ tree.nodes)
    (filled : front ≠ []) (more : rest ≠ []) : (front, .directory) ∈ tree.nodes := by
  induction rest using List.reverseRecOn generalizing kind with
  | nil => exact absurd rfl more
  | append_singleton rest name ih =>
    have above := tree.inside _ mem
    rw [← List.append_assoc, List.dropLast_concat] at above
    obtain empty | there := above
    · exact absurd (List.append_eq_nil_iff.1 empty).1 filled
    · by_cases direct : rest = []
      · rwa [direct, List.append_nil] at there
      · exact ih there direct

/-- The first step to an entry leads to an entry. -/
theorem stands_of_step {name : List UInt8} {rest : Location}
    (mem : (here ++ name :: rest, kind) ∈ tree.nodes) :
    ∃ kind, (here ++ [name], kind) ∈ tree.nodes := by
  by_cases direct : rest = []
  · exact ⟨kind, direct ▸ mem⟩
  · rw [← List.singleton_append, ← List.append_assoc] at mem
    exact ⟨.directory, directory_of_prefix mem (by simp) direct⟩

/-- Whoever is given the entries of a directory is given each of their names once. -/
theorem names_of_children {entries : List (List UInt8 × Listing)}
    (same : (entries.map fun entry => here ++ [entry.1]).Perm (tree.children here)) :
    (entries.map Prod.fst).Nodup ∧
      ∀ name, name ∈ entries.map Prod.fst ↔ ∃ kind, (here ++ [name], kind) ∈ tree.nodes := by
  have steps : (entries.map Prod.fst).map (fun name => here ++ [name]) =
      entries.map fun entry => here ++ [entry.1] := by
    rw [List.map_map]
    rfl
  rw [← steps] at same
  refine ⟨(same.nodup_iff.2 nodup_children).of_map, fun name => ?_⟩
  have step : name ∈ entries.map Prod.fst ↔ here ++ [name] ∈ tree.children here := by
    rw [← same.mem_iff]
    simp
  rw [step, mem_children, List.dropLast_concat, and_iff_left rfl]

/-! ## What a walk finds -/

/-- If a walk finds in each entry the places that are wanted there, and each once, it does so in all
of them. -/
theorem locatedAmong_of_each {P : Location → Prop} {entries : List (List UInt8 × Listing)}
    (once : (entries.map Prod.fst).Nodup)
    (each : ∀ entry ∈ entries, entry.1 ≠ Listing.metadataName →
      ∃ inner, entry.2.located? = some inner ∧ inner.Nodup ∧
        ∀ place, place ∈ inner ↔ P (entry.1 :: place)) :
    ∃ places, Listing.locatedAmong? entries = some places ∧ places.Nodup ∧
      ∀ place, place ∈ places ↔
        (∃ entry ∈ entries, entry.1 ≠ Listing.metadataName ∧ place.head? = some entry.1) ∧
          P place := by
  induction entries with
  | nil => exact ⟨[], rfl, List.nodup_nil, by simp⟩
  | cons entry rest ih =>
    obtain ⟨name, listing⟩ := entry
    obtain ⟨first, others⟩ := List.forall_mem_cons.1 each
    obtain ⟨new, onceLater⟩ := List.nodup_cons.1 once
    obtain ⟨more, later, moreOnce, moreIff⟩ := ih onceLater others
    by_cases skipped : name = Listing.metadataName
    · refine ⟨more, by rw [Listing.locatedAmong?, if_pos skipped, later], moreOnce, fun place => ?_⟩
      simp [moreIff, skipped]
    · obtain ⟨inner, found, innerOnce, innerIff⟩ := first skipped
      have here (place : Location) :
          place ∈ inner.map (name :: ·) ↔ place.head? = some name ∧ P place := by
        cases place with
        | nil => simp
        | cons step behind =>
          simp only [List.mem_map, innerIff, List.cons.injEq, List.head?_cons, Option.some.injEq]
          exact ⟨fun ⟨_, is, same, same'⟩ => ⟨same.symm, same ▸ same' ▸ is⟩,
            fun ⟨same, is⟩ => ⟨behind, same ▸ is, same.symm, rfl⟩⟩
      refine ⟨inner.map (name :: ·) ++ more, by rw [Listing.locatedAmong?, if_neg skipped, found,
        later], List.nodup_append.2 ⟨?_, moreOnce, ?_⟩, fun place => ?_⟩
      · exact innerOnce.map fun _ _ same => List.tail_eq_of_cons_eq same
      · rintro place mem _ mem' rfl
        obtain ⟨⟨entry, isLater, -, same⟩, -⟩ := (moreIff place).1 mem'
        have names : name = entry.1 := Option.some.inj (((here place).1 mem).1.symm.trans same)
        exact new (List.mem_map.2 ⟨entry, isLater, names.symm⟩)
      · rw [List.mem_append, here, moreIff, ← or_and_right]
        simp [skipped]

namespace Lists

/-- Below a place outside of what belongs to the version-control program, a walk finds each file
once. -/
theorem located_below {listing : Listing} (lists : tree.Lists here listing)
    (outside : Listing.metadataName ∉ here) :
    ∃ places, listing.located? = some places ∧ places.Nodup ∧
      ∀ place, place ∈ places ↔ here ++ place ∈ tree.leaves := by
  induction lists with
  | @leaf here kind leaf mem =>
    refine ⟨[[]], rfl, List.nodup_singleton _, fun place => ?_⟩
    rw [List.mem_singleton]
    constructor
    · rintro rfl
      rw [List.append_nil]
      exact mem_leaves.2 ⟨⟨kind, mem, leaf⟩, outside⟩
    · intro below
      obtain ⟨⟨_, deeper, -⟩, -⟩ := mem_leaves.1 below
      by_contra more
      have isDirectory := directory_of_prefix deeper (tree.named _ mem).1 more
      exact leaf (kind_unique mem isDirectory)
  | @directory here entries isDirectory same below ih =>
    obtain ⟨once, names⟩ := names_of_children same
    have each : ∀ entry ∈ entries, entry.1 ≠ Listing.metadataName →
        ∃ inner, entry.2.located? = some inner ∧ inner.Nodup ∧
          ∀ place, place ∈ inner ↔ here ++ entry.1 :: place ∈ tree.leaves := by
      intro entry mem other
      have apart : Listing.metadataName ∉ here ++ [entry.1] := by
        simp [outside, Ne.symm other]
      simpa using ih entry mem other apart
    obtain ⟨places, found, placesOnce, placesIff⟩ :=
      locatedAmong_of_each (P := fun place => here ++ place ∈ tree.leaves) once each
    refine ⟨places, found, placesOnce, fun place => (placesIff place).trans ?_⟩
    refine and_iff_right_of_imp fun isLeaf => ?_
    obtain ⟨⟨kind, mem, leaf⟩, apart⟩ := mem_leaves.1 isLeaf
    cases place with
    | nil =>
      rw [List.append_nil] at mem
      obtain rfl | there := isDirectory
      · exact absurd rfl (tree.named _ mem).1
      · exact absurd (kind_unique mem there) leaf
    | cons name rest =>
      obtain ⟨entry, isEntry, rfl⟩ := List.mem_map.1 ((names name).2 (stands_of_step mem))
      refine ⟨entry, isEntry, fun same => apart ?_, rfl⟩
      simp [same]

/-- A walk finds each file once, whatever the order of the entries. -/
theorem located {listing : Listing} (lists : tree.Lists [] listing) :
    ∃ places, listing.located? = some places ∧ places.Perm tree.leaves := by
  obtain ⟨places, found, once, each⟩ := lists.located_below List.not_mem_nil
  exact ⟨places, found, (List.perm_ext_iff_of_nodup once nodup_leaves).2 each⟩

end Lists

/-! ## What is listed -/

/-- Names that lead to an entry are read back from its path. -/
theorem nodup_paths : tree.paths.Nodup := by
  refine nodup_leaves.map_on fun first mem second mem' same => ?_
  have back {place : Location} (mem : place ∈ tree.leaves) :
      ([slash].intercalate place).splitOn slash = place := by
    obtain ⟨⟨kind, known, -⟩, -⟩ := mem_leaves.1 mem
    obtain ⟨filled, names⟩ := tree.named _ known
    exact List.splitOn_intercalate slash (fun name isIn => (names name isIn).2) filled
  rw [← back mem, ← back mem', Path.mk.inj same]

/-- A walk asks for the paths of all files as text, in some order, and sorts what it gets. -/
theorem Lists.files {listing : Listing} (lists : tree.Lists [] listing) (operation : String) :
    ∃ paths : List Path, paths.Perm tree.paths ∧
      listing.files operation = (paths.mapM (Path.argument operation)).map ascending := by
  obtain ⟨places, found, same⟩ := lists.located
  refine ⟨_, same.map _, ?_⟩
  rw [Listing.files, Listing.filesFrom_eq_mapM listing found]
  refine congrArg (fun paths => (List.mapM (Path.argument operation) paths).map ascending) ?_
  refine List.map_congr_left fun place mem => congrArg Path.mk (Listing.pathAlong_nil ?_)
  obtain ⟨⟨kind, known, -⟩, -⟩ := mem_leaves.1 (same.mem_iff.1 mem)
  exact fun name isIn => ((tree.named _ known).2 name isIn).1

section

variable {σ : Type} {handler : Program.Handler Host σ} {repository : GitRepository}
  {directory : Path}

/-- If all paths are text, they are listed. -/
theorem IsShown.files_of_text
    (shown : tree.IsShown handler (repository.workingCopy.join directory))
    (isOut : repository.isCheckedOut = true) (isText : ∀ path ∈ tree.paths, path.text? ≠ none)
    (state : σ) :
    ((repository.answer (.files directory)).run.run handler state).1 =
      .ok (ascending (tree.paths.map Path.display)) := by
  obtain ⟨paths, same, walks⟩ :=
    (shown.walk (handler .isCancelled state).2).files "list_files"
  have arguments : ∀ path ∈ paths, path.text? ≠ none :=
    fun path mem => isText path (same.mem_iff.1 mem)
  rw [Path.mapM_argument_of_text arguments] at walks
  rw [GitRepository.run_files isOut shown.goesOn, GitRepository.walked_of_files walks]
  exact congrArg Except.ok (ascending_perm (same.map _))

/-- If one path is no text, such a path is all that is told. -/
theorem IsShown.files_of_noText
    (shown : tree.IsShown handler (repository.workingCopy.join directory))
    (isOut : repository.isCheckedOut = true) (noText : ∃ path ∈ tree.paths, path.text? = none)
    (state : σ) :
    ∃ path ∈ tree.paths, path.text? = none ∧
      ((repository.answer (.files directory)).run.run handler state).1 =
        .error (.invalidInput ("list_files: path is not valid UTF-8: " ++ path.display)) := by
  obtain ⟨paths, same, walks⟩ :=
    (shown.walk (handler .isCancelled state).2).files "list_files"
  obtain ⟨path, mem, refused, stops⟩ := Path.mapM_argument_of_noText "list_files"
    (noText.imp fun path both => ⟨same.mem_iff.2 both.1, both.2⟩)
  refine ⟨path, same.mem_iff.1 mem, refused, ?_⟩
  rw [stops] at walks
  rw [GitRepository.run_files isOut shown.goesOn, GitRepository.walked_of_refusal walks]
  rfl

end

end DirectoryTree

/-- A system does not let anyone walk from a path, and this is what it says that stands there. -/
structure GitRepository.IsShut {σ : Type} (handler : Program.Handler Host σ) (top : Path)
    (fault : Fault) (looked : Except Fault FileKind) : Prop where
  goesOn : ∀ state, (handler .isCancelled state).1 = false
  walk : ∀ state, (handler (.walk top) state).1 = .unreadable fault
  kind : ∀ state, (handler (.kind top) state).1 = looked

/-- A fault at the top is passed on unless nothing stands there. -/
theorem GitRepository.IsShut.files {σ : Type} {handler : Program.Handler Host σ}
    {repository : GitRepository} {directory : Path} {fault : Fault}
    {looked : Except Fault FileKind}
    (shut : IsShut handler (repository.workingCopy.join directory) fault looked)
    (isOut : repository.isCheckedOut = true) (state : σ) :
    ((repository.answer (.files directory)).run.run handler state).1 =
      if fault = .notFound ∧ looked.isOk = false then .ok []
      else .error (.system "list_files" fault) := by
  rw [run_files isOut shut.goesOn, shut.walk]
  by_cases other : fault = .notFound
  · subst other
    rw [run_walked_missing (shut.kind _)]
    cases looked.isOk <;> rfl
  · rw [walked_unreadable other, if_neg fun both => other both.1]
    rfl

namespace DirectoryTree

/-- While the main branch is checked out, each file of a directory is listed once, whatever the
order in which the system gives the entries. A path that is no text fails the listing, and only what
is missing has none. -/
theorem each_file_listed_once (tree : DirectoryTree) (repository : GitRepository)
    (isOut : repository.isCheckedOut = true) (directory : Path) :
    let top := repository.workingCopy.join directory
    let told {σ : Type} (handler : Program.Handler Host σ) (state : σ) :
        Except RepositoryError (List String) :=
      ((repository.answer (.files directory)).run.run handler state).1
    ((∀ path ∈ tree.paths, path.text? ≠ none) →
      ∃ files : List String, files.Pairwise (fun a b => bytes a < bytes b) ∧
        (∀ text, text ∈ files ↔ Path.ofText text ∈ tree.paths) ∧
        ∀ {σ : Type} (handler : Program.Handler Host σ) (state : σ),
          tree.IsShown handler top → told handler state = .ok files) ∧
    ((∃ path ∈ tree.paths, path.text? = none) →
      ∀ {σ : Type} (handler : Program.Handler Host σ) (state : σ), tree.IsShown handler top →
        ∃ path ∈ tree.paths, path.text? = none ∧ told handler state =
          .error (.invalidInput ("list_files: path is not valid UTF-8: " ++ path.display))) ∧
    (∀ {σ : Type} (handler : Program.Handler Host σ) (state : σ) (fault : Fault)
      (looked : Except Fault FileKind), GitRepository.IsShut handler top fault looked →
        told handler state =
          if fault = .notFound ∧ looked.isOk = false then .ok []
          else .error (.system "list_files" fault)) := by
  intro top told
  refine ⟨fun isText => ?_, fun noText _ _ state shown => ?_, fun _ state _ _ shut => ?_⟩
  · have once : (tree.paths.map Path.display).Nodup := by
      refine nodup_paths.map_on fun path mem other mem' same => ?_
      rw [← Path.ofText_display (isText path mem), same, Path.ofText_display (isText other mem')]
    refine ⟨ascending (tree.paths.map Path.display), ascending_pairwise_bytes once,
      fun text => ?_, fun _ state shown => shown.files_of_text isOut isText state⟩
    rw [(ascending_perm_self _).mem_iff, List.mem_map]
    constructor
    · rintro ⟨path, mem, rfl⟩
      rwa [Path.ofText_display (isText path mem)]
    · exact fun mem => ⟨_, mem, lossyText_bytes text⟩
  · exact shown.files_of_noText isOut noText state
  · exact shut.files isOut state

/-- A directory where a page stands beside the directory of its translations. -/
def pages : DirectoryTree where
  nodes := [
    ([bytes "guide"], .directory),
    ([bytes "guide", bytes "é.md"], .file),
    ([bytes "guide", bytes ".git"], .file),
    ([bytes "guide.md"], .file),
    ([bytes "a.md"], .link),
    ([bytes ".git"], .directory),
    ([bytes ".git", bytes "config"], .file)]
  once := by decide
  named := by decide
  inside := by decide

/-- What a walk through that directory finds, with the entries in two orders. -/
def pagesInTurn (turned : Bool) : Listing :=
  let order (entries : List (List UInt8 × Listing)) : Listing :=
    .directory (bif turned then entries.reverse else entries)
  order [
    (bytes "guide", order [(bytes "é.md", .file), (bytes ".git", .file)]),
    (bytes "a.md", .file),
    (bytes ".git", .directory [(bytes "config", .file)]),
    (bytes "guide.md", .file)]

theorem lists_pagesInTurn (turned : Bool) : pages.Lists [] (pagesInTurn turned) := by
  cases turned
  all_goals
    refine .directory (.inl rfl) (by decide) fun entry mem other => ?_
    simp only [cond_true, cond_false, List.reverse_cons, List.reverse_nil, List.nil_append,
      List.cons_append, List.mem_cons, List.not_mem_nil, or_false] at mem
    obtain rfl | rfl | rfl | rfl := mem
    all_goals first
      | exact .leaf .file nofun (by decide)
      | exact .leaf .link nofun (by decide)
      | exact absurd rfl other
      | refine .directory (.inr (by decide)) (by decide) fun entry mem other => ?_
        simp only [List.mem_cons, List.not_mem_nil, or_false] at mem
        obtain rfl | rfl := mem <;> exact .leaf .file nofun (by decide)

/-- What a system answers that shows the directory in another order each time. -/
def pagesShown : Program.Handler Host Bool
  | .walk _, turned => (pagesInTurn turned, !turned)
  | request, turned => ((Machine.handle request Machine.guide).1, turned)

/-- A directory with a name that is no text. -/
def unnamed : DirectoryTree where
  nodes := [([bytes "a.md"], .file), ([[0xFF]], .file)]
  once := by decide
  named := by decide
  inside := by decide

/-- What a system answers that shows that directory. -/
def unnamedShown : Program.Handler Host Unit
  | .walk _, _ => (.directory [([0xFF], .file), (bytes "a.md", .file)], ())
  | request, _ => ((Machine.handle request Machine.guide).1, ())

/-- The directory is listed the same in either order, the name that is no text fails the listing of
the other one, and where there is no directory nothing is listed. -/
theorem each_file_listed_once_pages :
    let told {σ : Type} (handler : Program.Handler Host σ) (state : σ) :
        Except RepositoryError (List String) :=
      ((GitRepository.answer ⟨Path.ofText "/r/", "origin", "main", true⟩
        (.files (Path.ofText "content/de"))).run.run handler state).1
    (∀ turned, told pagesShown turned = .ok ["a.md", "guide.md", "guide/é.md"]) ∧
      told unnamedShown () =
        .error (.invalidInput "list_files: path is not valid UTF-8: \uFFFD") ∧
      told Machine.guide.still () = .ok [] := by
  intro told
  have listed := fun tree => each_file_listed_once tree
    ⟨Path.ofText "/r/", "origin", "main", true⟩ rfl (Path.ofText "content/de")
  refine ⟨fun turned => ?_, ?_, ?_⟩
  · have isText : ∀ path ∈ pages.paths, path.text? ≠ none := by decide +kernel
    have paths : pages.paths.Perm (["a.md", "guide.md", "guide/é.md"].map Path.ofText) := by
      decide +kernel
    obtain ⟨files, sorted, holds, all⟩ := (listed pages).1 isText
    have answers := all pagesShown turned ⟨fun _ => rfl, lists_pagesInTurn⟩
    refine answers.trans (congrArg Except.ok ?_)
    refine eq_of_pairwise_bytes sorted (by decide +kernel) fun text => (holds text).trans ?_
    rw [paths.mem_iff, List.mem_map]
    refine ⟨fun ⟨_, mem, is⟩ => ?_, fun mem => ⟨text, mem, rfl⟩⟩
    rwa [← bytes_injective (Path.mk.inj is)]
  · have noText : ∃ path ∈ unnamed.paths, path.text? = none := by decide +kernel
    have only : ∀ path ∈ unnamed.paths, path.text? = none → path.display = "\uFFFD" := by
      decide +kernel
    have lists : unnamed.Lists [] (.directory [([0xFF], .file), (bytes "a.md", .file)]) := by
      refine .directory (.inl rfl) (by decide) fun entry mem _ => ?_
      simp only [List.mem_cons, List.not_mem_nil, or_false] at mem
      obtain rfl | rfl := mem <;> exact .leaf .file nofun (by decide)
    obtain ⟨path, mem, refused, answers⟩ :=
      (listed unnamed).2.1 noText unnamedShown () ⟨fun _ => rfl, fun _ => lists⟩
    rw [only path mem refused] at answers
    exact answers
  · have looks : Machine.guide.kind ((Path.ofText "/r/").join (Path.ofText "content/de")) =
        .error .notFound := by
      decide +kernel
    have stops : Machine.guide.files.existing []
        ((Path.ofText "/r/").join (Path.ofText "content/de")) = .error .notFound := by
      decide +kernel
    have walks : Machine.guide.files.walk []
        ((Path.ofText "/r/").join (Path.ofText "content/de")) = .unreadable .notFound := by
      rw [FileTree.walk, stops]
    exact (listed pages).2.2 Machine.guide.still () .notFound (.error .notFound)
      ⟨fun _ => rfl, fun _ => walks, fun _ => looks⟩

end DirectoryTree

end LocaleWatch
