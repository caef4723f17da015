import LocaleWatch.Proofs.Files.ByteOrder
import LocaleWatch.Proofs.Files.TextPaths
import LocaleWatch.Proofs.Git.Runs

/-!
# The working copy and the branch

While the main branch is checked out, its files are looked for in the working copy, and otherwise
the version-control program is asked about the branch. Where both have the same tree of files, both
should find the same.

They do, except that a system does not enter a file. Whoever looks below a file in the working copy,
or for files at one, is told that this is no directory, and that is passed on as an error. The
branch just has nothing there. Also, the root of the working copy is a directory, but its path has
no name that a branch could print, and a path that is no text is no argument of a program.

The files that a walk finds may come in any order, and so may those that are printed: both are
sorted.

## Main results

* `Listing.filesFrom_eq_mapM` — a walk gives the files where it finds them.
* `GitRepository.relativeTo?_intercalate` — what remains of a key below a directory.
* `BranchTree.place_eq_blocked_iff` — when nothing can be looked at.
* `BranchTree.trees_agree_iff` — what both readings give, and when it is the same.
-/

namespace LocaleWatch

open Text

/-! ## Paths as arguments -/

namespace Path

variable {operation : String}

theorem display_of_text? {path : Path} {text : String} (isText : path.text? = some text) :
    path.display = text := by
  rw [display, text?_eq_some_iff.1 isText, lossyText_bytes]

/-- A path that is text is shown as it is. -/
theorem ofText_display {path : Path} (isText : path.text? ≠ none) : ofText path.display = path := by
  obtain ⟨text, found⟩ := Option.ne_none_iff_exists'.1 isText
  rw [display_of_text? found, ofText, ← text?_eq_some_iff.1 found]

/-- A path that is text is an argument, and another one is refused. -/
theorem argument_eq (operation : String) (path : Path) :
    path.argument operation =
      if path.text? = none then
        .error (.invalidInput (operation ++ ": path is not valid UTF-8: " ++ path.display))
      else .ok path.display := by
  rw [argument]
  cases isText : path.text? with
  | none => rfl
  | some text => simp [display_of_text? isText]

theorem mapM_argument_of_text {paths : List Path} (isText : ∀ path ∈ paths, path.text? ≠ none) :
    paths.mapM (argument operation) = .ok (paths.map display) := by
  induction paths with
  | nil => rfl
  | cons path rest ih =>
    obtain ⟨first, others⟩ := List.forall_mem_cons.1 isText
    rw [List.mapM_cons, argument_eq, if_neg first, ih others]
    rfl

/-- Of paths that are all to be arguments, one that is no text is refused. -/
theorem mapM_argument_of_noText (operation : String) {paths : List Path}
    (noText : ∃ path ∈ paths, path.text? = none) :
    ∃ path ∈ paths, path.text? = none ∧ paths.mapM (argument operation) =
      .error (.invalidInput (operation ++ ": path is not valid UTF-8: " ++ path.display)) := by
  induction paths with
  | nil => simp at noText
  | cons path rest ih =>
    by_cases first : path.text? = none
    · refine ⟨path, List.mem_cons_self, first, ?_⟩
      rw [List.mapM_cons, argument_eq, if_pos first]
      rfl
    · obtain ⟨other, mem, refused, same⟩ := ih (by simpa [first] using noText)
      refine ⟨other, List.mem_cons_of_mem _ mem, refused, ?_⟩
      rw [List.mapM_cons, argument_eq, if_neg first, same]
      rfl

end Path

/-! ## What a walk finds -/

namespace Listing

mutual

/-- Where a walk finds files, by the names that lead there from its top; none if it cannot read
everything. What belongs to the version-control program is not looked at. -/
def located? : Listing → Option (List Location)
  | .file => some [[]]
  | .directory entries => locatedAmong? entries
  | .unreadable _ => none

/-- Where a walk finds files among the entries of a directory. -/
def locatedAmong? : List (List UInt8 × Listing) → Option (List Location)
  | [] => some []
  | (name, listing) :: rest =>
    if name = metadataName then locatedAmong? rest
    else
      match listing.located?, locatedAmong? rest with
      | some inner, some more => some (inner.map (name :: ·) ++ more)
      | _, _ => none

end

/-- The path of a file that names lead to from the directory at `here`. -/
def pathAlong (here : List UInt8) (location : Location) : List UInt8 := location.foldl pathOf here

variable {operation : String}

mutual

/-- A walk gives the paths of the places where it finds files, one after the other. -/
theorem filesFrom_eq_mapM {here : List UInt8} {places : List Location} :
    (listing : Listing) → listing.located? = some places →
    filesFrom operation here listing =
      (places.map fun place => Path.mk (pathAlong here place)).mapM (Path.argument operation)
  | .file, found => by
    cases found
    simp only [filesFrom, pathAlong, List.map_cons, List.map_nil, List.foldl_nil, List.mapM_cons,
      List.mapM_nil]
    cases Path.argument operation ⟨here⟩ <;> rfl
  | .directory entries, found => filesAmong_eq_mapM entries found

/-- So it does among the entries of a directory. -/
theorem filesAmong_eq_mapM {here : List UInt8} {places : List Location} :
    (entries : List (List UInt8 × Listing)) → locatedAmong? entries = some places →
    filesAmong operation here entries =
      (places.map fun place => Path.mk (pathAlong here place)).mapM (Path.argument operation)
  | [], found => by
    cases found
    rfl
  | (name, listing) :: rest, found => by
    by_cases skipped : name = metadataName
    · rw [locatedAmong?, if_pos skipped] at found
      rw [filesAmong, if_pos skipped]
      exact filesAmong_eq_mapM rest found
    · rw [locatedAmong?, if_neg skipped] at found
      cases inner : listing.located? with
      | none => simp [inner] at found
      | some first =>
        cases later : locatedAmong? rest with
        | none => simp [inner, later] at found
        | some more =>
          simp only [inner, later, Option.some.injEq] at found
          subst found
          have one : filesFrom operation (pathOf here name) listing = _ :=
            filesFrom_eq_mapM listing inner
          have others : filesAmong operation here rest = _ := filesAmong_eq_mapM rest later
          rw [filesAmong, if_neg skipped, one, others, List.map_append, List.mapM_append,
            List.map_map]
          rfl

end

/-- The path of a file is put together from the names that lead to it. -/
theorem pathAlong_of_ne {here : List UInt8} (filled : here ≠ []) (place : Location) :
    pathAlong here place = [slash].intercalate (here :: place) := by
  induction place generalizing here with
  | nil => rw [List.intercalate_singleton, pathAlong, List.foldl_nil]
  | cons name rest ih =>
    have step : pathOf here name = here ++ slash :: name := by
      rw [pathOf, if_neg (by simpa using filled)]
    calc pathAlong here (name :: rest)
        = pathAlong (here ++ slash :: name) rest := by rw [← step]; rfl
      _ = [slash].intercalate ((here ++ slash :: name) :: rest) := ih (by simp)
      _ = [slash].intercalate (here :: name :: rest) := by
        cases rest <;> simp [List.intercalate_cons_cons]

theorem pathAlong_nil {place : Location} (filled : ∀ name ∈ place, name ≠ []) :
    pathAlong [] place = [slash].intercalate place := by
  cases place with
  | nil => rfl
  | cons name rest => exact pathAlong_of_ne (filled name List.mem_cons_self) rest

theorem pathAlong_top {names : List String} (proper : ∀ name ∈ names, Path.IsPart name) :
    pathAlong [] (names.map bytes) = bytes ("/".intercalate names) := by
  have filled : ∀ name ∈ names.map bytes, name ≠ [] := by
    intro name mem empty
    obtain ⟨text, isIn, rfl⟩ := List.mem_map.1 mem
    exact (proper text isIn).1 (bytes_injective (empty.trans rfl))
  have separator : "/".toList = ['/'] := rfl
  rw [pathAlong_nil filled, bytes, String.toList_intercalate, separator, Path.encode_intercalate,
    List.map_map]
  rfl

/-- A walk that finds files, in any order, gives their paths. -/
theorem files_of_located {found : Listing} {located : List Location} {files : List (List String)}
    (proper : ∀ file ∈ files, ∀ name ∈ file, Path.IsPart name)
    (finds : found.located? = some located)
    (same : located.Perm (files.map fun file => file.map bytes)) :
    found.files operation = .ok (ascending (files.map ("/".intercalate ·))) := by
  have isText : ∀ place ∈ located, ∃ text, pathAlong [] place = bytes text := by
    intro place mem
    obtain ⟨file, isIn, rfl⟩ := List.mem_map.1 (same.mem_iff.1 mem)
    exact ⟨_, pathAlong_top (proper file isIn)⟩
  have paths : ((files.map fun file => file.map bytes).map fun place =>
      lossyText (pathAlong [] place)) = files.map ("/".intercalate ·) := by
    rw [List.map_map]
    refine List.map_congr_left fun file mem => ?_
    rw [Function.comp_apply, pathAlong_top (proper file mem), lossyText_bytes]
  have arguments : ∀ path ∈ located.map fun place => Path.mk (pathAlong [] place),
      path.text? ≠ none := by
    intro path mem
    obtain ⟨place, isIn, rfl⟩ := List.mem_map.1 mem
    obtain ⟨text, same⟩ := isText place isIn
    simp [Path.text?, same]
  rw [Listing.files, filesFrom_eq_mapM found finds, Path.mapM_argument_of_text arguments,
    List.map_map, Except.map]
  exact congrArg Except.ok (ascending_perm ((same.map _).trans (paths ▸ List.Perm.refl _)))

end Listing

/-! ## Trees -/

/-- Where a path leads that goes neither up nor to the root. -/
def Path.location (path : Path) : Location := path.components.map Component.bytes

/-- Files of a repository, each by the names that lead to it. -/
structure FileList where
  files : List (List String)
  below : [] ∉ files
  proper : ∀ file ∈ files, ∀ name ∈ file, Path.IsPart name ∧ name ≠ ".." ∧ '\x00' ∉ name.toList

namespace FileList

variable (list : FileList) {file names : List String}

theorem isPart (mem : file ∈ list.files) : ∀ name ∈ file, Path.IsPart name :=
  fun name isIn => (list.proper file mem name isIn).1

/-- The path of a file or of a directory above one is read back where it is printed. -/
theorem entry_of_leads (mem : file ∈ list.files) (leads : names <+: file) (filled : names ≠ []) :
    "/".intercalate names ≠ "" ∧ '\x00' ∉ ("/".intercalate names).toList := by
  have parts : ∀ name ∈ names, Path.IsPart name := fun name isIn =>
    list.isPart mem name (leads.subset isIn)
  refine ⟨Path.intercalate_ne_empty filled parts, fun inner => ?_⟩
  obtain separator | ⟨name, isIn, inner⟩ := Path.mem_intercalate inner
  · exact absurd separator (by decide)
  · exact (list.proper file mem name (leads.subset isIn)).2.2 inner

/-- The path of a file is read back where it is printed. -/
theorem entry_of_mem (mem : file ∈ list.files) :
    "/".intercalate file ≠ "" ∧ '\x00' ∉ ("/".intercalate file).toList :=
  list.entry_of_leads mem (List.prefix_refl file) fun top => list.below (top ▸ mem)

end FileList

/-- The files of a branch. Directories are there for their files only, so that none is empty. -/
structure BranchTree extends FileList where
  noMetadata : ∀ file ∈ files, ".git" ∉ file
  apart : ∀ file ∈ files, ∀ other ∈ files, file <+: other → file = other

/-- What names can lead to. -/
inductive Place where
  | file
  | directory
  /-- Nothing, although all directories on the way are there or missing. -/
  | nothing
  /-- Nothing, because a file stands on the way. -/
  | blocked
  deriving DecidableEq

namespace BranchTree

variable (tree : BranchTree)

/-- Where the files are. -/
def locations : List Location := tree.files.map fun file => file.map bytes

/-- What names lead to. -/
def place (here : Location) : Place :=
  if here ∈ tree.locations then .file
  else if here = [] ∨ ∃ file ∈ tree.locations, here <+: file then .directory
  else if ∃ file ∈ tree.locations, file <+: here then .blocked
  else .nothing

/-- What is left of the names of the files at and below a place. -/
def beyond (here : Location) : List (List String) :=
  tree.files.filterMap fun file =>
    if here <+: file.map bytes then some (file.drop here.length) else none

/-- The files below a place by their paths from there, ascending. -/
def listing (here : Location) : List String :=
  ascending (((tree.beyond here).filter (· ≠ [])).map ("/".intercalate ·))

end BranchTree

/-- Whether anything stands at a place. -/
def Place.stands : Place → Bool
  | .file | .directory => true
  | .nothing | .blocked => false

/-- What a system says that stands at a path that leads to a place. Only directories are entered,
and a path that ends in a separator or in a `.` enters what it leads to. -/
def Place.kind (path : Path) : Place → Except Fault FileKind
  | .file => if FileTree.namesDirectory path then .error .notADirectory else .ok .file
  | .directory => .ok .directory
  | .nothing => .error .notFound
  | .blocked => .error .notADirectory

/-- What a walk from a place finds: if that is a directory, the files below it, each once and in any
order. -/
def BranchTree.Walks (tree : BranchTree) (here : Location) (found : Listing) : Prop :=
  match tree.place here with
  | .directory => ∃ files, found.located? = some files ∧
      files.Perm ((tree.beyond here).map fun file => file.map bytes)
  | .nothing => found = .unreadable .notFound
  | .file | .blocked => found = .unreadable .notADirectory

/-- A working copy and a branch have a tree, as far as a path is looked at. -/
structure BranchTree.IsShown {σ : Type} (tree : BranchTree) (handler : Program.Handler Host σ)
    (repository : GitRepository) (path : Path) : Prop where
  goesOn : ∀ state, (handler .isCancelled state).1 = false
  kind : ∀ state, (handler (.kind (repository.workingCopy.join path)) state).1 =
    (tree.place path.location).kind path
  walk : ∀ state, tree.Walks path.location
    (handler (.walk (repository.workingCopy.join path)) state).1
  exists_ : ∃ complaint, ∀ state, (handler (.git (.within repository.workingCopy
      (repository.commandLine (.fileExists path)))) state).1 =
    .ok ⟨0, bytes (ended '\x00' (if (tree.place path.location).stands then [path.key] else [])),
      complaint⟩
  lists : ∃ printed complaint,
    printed.Perm ((tree.files.filter fun file => path.location <+: file.map bytes).map
      ("/".intercalate ·)) ∧
    ∀ state, (handler (.git (.within repository.workingCopy
      (repository.commandLine (.files path)))) state).1 =
    .ok ⟨0, bytes (ended '\x00' printed), complaint⟩

/-! ## Keys -/

namespace GitRepository

theorem relativeTo?_eq_some_iff {directory path rest : String} :
    relativeTo? directory path = some rest ↔ path = directory ++ "/" ++ rest := by
  have whole : path = directory ++ "/" ++ rest ↔
      path.toList = (directory.toList ++ ['/']) ++ rest.toList := by
    rw [← String.toList_inj, String.toList_append, String.toList_append]
    rfl
  rw [whole, relativeTo?]
  simp only [ List.isPrefixOf_iff_prefix]
  constructor
  · intro found
    split at found
    · next leads =>
      obtain ⟨behind, shape⟩ := leads
      rw [← shape, List.drop_left] at found
      rw [← Option.some.inj found, String.toList_ofList, shape]
    · contradiction
  · intro shape
    rw [if_pos ⟨_, shape.symm⟩, shape, List.drop_left, String.ofList_toList]

/-- What remains of the key of a file below a directory is the key of the names that remain. -/
theorem relativeTo?_intercalate {names file : List String} (filled : names ≠ [])
    (proper : ∀ name ∈ names, Path.IsPart name) (proper' : ∀ name ∈ file, Path.IsPart name) :
    relativeTo? ("/".intercalate names) ("/".intercalate file) =
      if names <+: file ∧ names ≠ file then some ("/".intercalate (file.drop names.length))
      else none := by
  by_cases inner : names <+: file ∧ names ≠ file
  · obtain ⟨⟨rest, rfl⟩, other⟩ := inner
    have more : rest ≠ [] := by
      rintro rfl
      exact other (List.append_nil names).symm
    rw [if_pos ⟨List.prefix_append _ _, other⟩, relativeTo?_eq_some_iff, List.drop_left,
      String.intercalate_append_of_ne_nil filled more]
  · rw [if_neg inner, Option.eq_none_iff_forall_ne_some]
    intro rest found
    have shape := relativeTo?_eq_some_iff.1 found
    have parts := congrArg Path.names shape
    rw [Path.names_append_separator, Path.names_intercalate proper, Path.names_intercalate proper']
      at parts
    refine inner ⟨⟨_, parts.symm⟩, ?_⟩
    rintro rfl
    have longer := congrArg (String.length ·) shape
    simp only [String.length_append] at longer
    have one : "/".length = 1 := by decide
    omega

theorem relativeTo?_empty {file : List String} (proper : ∀ name ∈ file, Path.IsPart name) :
    relativeTo? "" ("/".intercalate file) = none := by
  rw [Option.eq_none_iff_forall_ne_some]
  intro rest found
  refine Path.head?_intercalate proper ?_
  rw [relativeTo?_eq_some_iff.1 found, String.toList_append, String.toList_append]
  rfl

end GitRepository

namespace BranchTree

variable (tree : BranchTree)

/-- Of the files at and below a directory, those that are printed relative to it are the files
below it. -/
theorem filterMap_relativeTo? {names : List String} (filled : names ≠ [])
    (proper : ∀ name ∈ names, Path.IsPart name) :
    ((tree.files.filter fun file => names.map bytes <+: file.map bytes).map
        ("/".intercalate ·)).filterMap (GitRepository.relativeTo? ("/".intercalate names)) =
      ((tree.beyond (names.map bytes)).filter (· ≠ [])).map ("/".intercalate ·) := by
  have under {file : List String} : names.map bytes <+: file.map bytes ↔ names <+: file := by
    constructor
    · intro leads
      obtain ⟨front, isFront, same⟩ := List.prefix_map_iff.1 leads
      rwa [List.map_injective_iff.2 bytes_injective same]
    · exact fun leads => leads.map bytes
  have parts := fun file (mem : file ∈ tree.files) => tree.isPart mem
  unfold beyond
  simp only [under, List.length_map]
  revert parts
  induction tree.files with
  | nil => exact fun _ => rfl
  | cons file rest ih =>
    intro parts
    obtain ⟨first, others⟩ := List.forall_mem_cons.1 parts
    have step := GitRepository.relativeTo?_intercalate filled proper first
    have later := ih others
    clear ih parts
    by_cases inner : names <+: file
    · by_cases same : names = file
      · subst same
        simpa [step] using later
      · have more : file.drop names.length ≠ [] := by
          obtain ⟨behind, rfl⟩ := inner
          simpa using same
        rw [if_pos ⟨inner, same⟩] at step
        simpa [inner, more, step] using later
    · simpa [inner] using later

end BranchTree

/-! ## Looks into the working copy -/

namespace GitRepository

variable {repository : GitRepository} {operation : String}

/-- What is made of what the system says that stands at a path. -/
def existence (operation : String) : Except Fault FileKind → Except RepositoryError Bool
  | .ok _ => .ok true
  | .error .notFound => .ok false
  | .error fault => .error (.system operation fault)

/-- What is made of a walk. Where it finds nothing, nothing may stand at its top either. -/
def walked (operation : String) (top : Path) (listing : Listing) : Answering (List String) := do
  match listing.files operation with
  | .ok files => return files
  | .error (.system operation .notFound) =>
    match ← Attempt.result (Host.isThere top) with
    | .ok true => throw (.system operation .notFound)
    | _ => return []
  | .error error => throw error

theorem run_fileExists (isOut : repository.isCheckedOut = true) (path : Path) :
    (repository.fileExists operation path).run =
      afterLook operation (.ask (I := Host) (.kind (repository.workingCopy.join path))
        fun told => .done (existence operation told)) := by
  rw [fileExists, isOut, if_pos rfl]
  refine congrArg (Program.ask (I := Host) .isCancelled) (funext fun told => ?_)
  cases told with
  | true => rfl
  | false =>
    refine congrArg (Program.ask (I := Host) _) (funext fun told => ?_)
    rcases told with fault | kind
    · cases fault <;> rfl
    · rfl

theorem run_workingFiles (directory : Path) :
    (repository.workingFiles operation directory).run =
      afterLook operation (.ask (I := Host) (.walk (repository.workingCopy.join directory))
        fun listing => (walked operation (repository.workingCopy.join directory) listing).run) := by
  refine congrArg (Program.ask (I := Host) .isCancelled) (funext fun told => ?_)
  cases told <;> rfl

theorem walked_of_files {top : Path} {listing : Listing} {files : List String}
    (found : listing.files operation = .ok files) :
    (walked operation top listing).run = .done (.ok files) := by
  rw [walked, found]
  rfl

/-- Where a path is no text, the walk was for nothing. -/
theorem walked_of_refusal {top : Path} {listing : Listing} {reason : String}
    (refused : listing.files operation = .error (.invalidInput reason)) :
    (walked operation top listing).run = .done (.error (.invalidInput reason)) := by
  rw [walked, refused]
  rfl

theorem walked_unreadable {fault : Fault} (other : fault ≠ .notFound) (top : Path) :
    (walked operation top (.unreadable fault)).run = .done (.error (.system operation fault)) := by
  cases fault <;> first | rfl | contradiction

/-- Where the walk finds nothing, it matters whether anything stands there. -/
theorem run_walked_missing {σ : Type} {handler : Program.Handler Host σ} {top : Path} {state : σ}
    {looked : Except Fault FileKind} (looks : (handler (.kind top) state).1 = looked) :
    ((walked operation top (.unreadable .notFound)).run.run handler state).1 =
      if looked.isOk then .error (.system operation .notFound) else .ok [] := by
  have asks : (walked operation top (.unreadable .notFound)).run =
      .ask (I := Host) (.kind top) fun told : Except Fault FileKind =>
        .done (if told.isOk then .error (.system operation .notFound) else .ok []) := by
    refine congrArg (Program.ask (I := Host) (.kind top)) (funext fun told => ?_)
    rcases told with fault | kind
    · cases fault <;> rfl
    · rfl
  rw [asks, ← looks]
  rfl

/-- What files are there is told by one walk while the main branch is checked out. -/
theorem run_files {σ : Type} {handler : Program.Handler Host σ}
    (isOut : repository.isCheckedOut = true)
    (goesOn : ∀ state, (handler .isCancelled state).1 = false) (directory : Path) (state : σ) :
    let top := repository.workingCopy.join directory
    let told := handler (.walk top) (handler .isCancelled state).2
    ((repository.answer (.files directory)).run.run handler state).1 =
      ((walked "list_files" top told.1).run.run handler told.2).1 := by
  have answers : (repository.answer (.files directory)).run =
      (repository.workingFiles "list_files" directory).run := by
    rw [answer, if_pos isOut]
    rfl
  rw [answers, run_workingFiles, run_afterLook goesOn]
  rfl

end GitRepository

/-! ## Both readings -/

namespace Path

variable {path : Path}

/-- A path that is text and leads nowhere but to names leads to the names in the text, and its key
joins them. -/
theorem named_of_text? {text : String} (isText : path.text? = some text)
    (inner : ∀ component ∈ path.components, component.escapes = false) :
    path.location = (names text).map Text.bytes ∧ path.key = "/".intercalate (names text) := by
  obtain rfl : path = ofText text := congrArg Path.mk (text?_eq_some_iff.1 isText)
  obtain ⟨relative, noUp⟩ := not_escapes_ofText_iff.1 inner
  constructor
  · rw [location, components_ofText, if_neg relative, List.nil_append, List.map_map]
    refine List.map_congr_left fun name mem => ?_
    rw [Function.comp_apply, Component.ofName_of_ne fun same => noUp (same ▸ mem)]
    rfl
  · rw [key_ofText, if_neg relative, List.nil_append]

end Path

namespace GitRepository

/-- A path that is no text is no argument, so the version-control program is not run. -/
theorem answer_noText {σ : Type} {repository : GitRepository} {path : Path}
    (notOut : repository.isCheckedOut = false) (noText : path.text? = none)
    (handler : Program.Handler Host σ) (state : σ) :
    ((repository.answer (.fileExists path)).run.run handler state).1 =
        .error (.invalidInput ("file_exists: path is not valid UTF-8: " ++ path.display)) ∧
      ((repository.answer (.files path)).run.run handler state).1 =
        .error (.invalidInput ("list_files: path is not valid UTF-8: " ++ path.display)) := by
  have refused (operation : String) : Path.argument operation path =
      .error (.invalidInput (operation ++ ": path is not valid UTF-8: " ++ path.display)) := by
    rw [Path.argument, noText]
  constructor
  · simp only [answer, fileExists, notOut, refused]
    rfl
  · simp only [answer, branchFiles, notOut, refused]
    rfl

end GitRepository

namespace BranchTree

variable {tree : BranchTree}

/-- Where something stands below the root, names of the tree lead. -/
theorem proper_of_stands {names : List String} (stands : (tree.place (names.map bytes)).stands)
    (filled : names ≠ []) :
    ∃ file ∈ tree.files, names <+: file := by
  have known (file : Location) (mem : file ∈ tree.locations) (leads : names.map bytes <+: file) :
      ∃ file ∈ tree.files, names <+: file := by
    obtain ⟨original, isIn, rfl⟩ := List.mem_map.1 mem
    obtain ⟨front, isFront, same⟩ := List.prefix_map_iff.1 leads
    exact ⟨original, isIn, by rwa [List.map_injective_iff.2 bytes_injective same]⟩
  unfold place at stands
  split at stands
  · next mem => exact known _ mem (List.prefix_refl _)
  · split at stands
    · next inner =>
      obtain empty | ⟨file, mem, leads⟩ := inner
      · simp [filled] at empty
      · exact known file mem leads
    · split at stands <;> contradiction

/-- What a query for the files at a place gives in the working copy. -/
def walkedFiles (tree : BranchTree) (here : Location) : Except RepositoryError (List String) :=
  match tree.place here with
  | .directory => .ok (tree.listing here)
  | .nothing => .ok []
  | .file | .blocked => .error (.system "list_files" .notADirectory)

/-- What is left of the names of files at and below a place stands between separators. -/
theorem isPart_of_beyond {here : Location} {rest : List String} (mem : rest ∈ tree.beyond here) :
    ∀ name ∈ rest, Path.IsPart name := by
  intro name isIn
  obtain ⟨file, known, kept⟩ := List.mem_filterMap.1 mem
  split at kept
  · cases kept
    exact tree.isPart known name (List.mem_of_mem_drop isIn)
  · contradiction

/-- Nothing is left of the names of a file only where that file is. -/
theorem nil_not_mem_beyond {here : Location} (other : tree.place here ≠ .file) :
    [] ∉ tree.beyond here := by
  intro mem
  obtain ⟨file, known, kept⟩ := List.mem_filterMap.1 mem
  split at kept
  · next leads =>
    have short := List.drop_eq_nil_iff.1 (Option.some.inj kept)
    have same : here = file.map bytes :=
      leads.eq_of_length_le (by simpa using short)
    exact other (if_pos (same ▸ List.mem_map_of_mem known))
  · contradiction

/-- The files of a walk through a directory are those of the tree. -/
theorem files_of_walks {operation : String} {found : Listing} {here : Location}
    (isDirectory : tree.place here = .directory) (walks : tree.Walks here found) :
    found.files operation = .ok (tree.listing here) := by
  simp only [Walks, isDirectory] at walks
  obtain ⟨files, located, same⟩ := walks
  have kept : (tree.beyond here).filter (· ≠ []) = tree.beyond here := by
    refine List.filter_eq_self.2 fun rest mem => decide_eq_true ?_
    rintro rfl
    exact nil_not_mem_beyond (by rw [isDirectory]; exact nofun) mem
  rw [listing, kept]
  exact Listing.files_of_located (fun file => isPart_of_beyond) located same

namespace IsShown

variable {σ : Type} {handler : Program.Handler Host σ} {repository : GitRepository} {path : Path}
  {text : String}

/-- Whether the branch is checked out changes nothing about what is shown. -/
theorem either (shown : tree.IsShown handler repository path) (isOut : Bool) :
    tree.IsShown handler { repository with isCheckedOut := isOut } path :=
  ⟨shown.goesOn, shown.kind, shown.walk, shown.exists_, shown.lists⟩

/-- In a working copy, the system says what stands at a path. -/
theorem fileExists_workTree (shown : tree.IsShown handler repository path)
    (isOut : repository.isCheckedOut = true) (state : σ) :
    ((repository.answer (.fileExists path)).run.run handler state).1 =
      GitRepository.existence "file_exists" ((tree.place path.location).kind path) := by
  have runs : (repository.fileExists "file_exists" path).run = _ :=
    GitRepository.run_fileExists isOut path
  have looks := congrArg (fun program => (Program.run handler program state).1) runs
  exact looks.trans ((run_afterLook shown.goesOn _ state).trans
    (congrArg (GitRepository.existence "file_exists") (shown.kind _)))

/-- In a working copy, a walk finds the files, unless it cannot enter its top. -/
theorem files_workTree (shown : tree.IsShown handler repository path)
    (isOut : repository.isCheckedOut = true) (state : σ) :
    ((repository.answer (.files path)).run.run handler state).1 =
      tree.walkedFiles path.location := by
  rw [GitRepository.run_files isOut shown.goesOn]
  have walks := shown.walk (handler .isCancelled state).2
  generalize handler (.walk (repository.workingCopy.join path)) (handler .isCancelled state).2 =
    told at walks ⊢
  obtain ⟨found, later⟩ := told
  rw [walkedFiles]
  cases isPlace : tree.place path.location with
  | directory =>
    rw [GitRepository.walked_of_files (files_of_walks isPlace walks)]
    rfl
  | nothing =>
    have missing := (shown.kind later).trans (congrArg (Place.kind path) isPlace)
    simp only [Walks, isPlace] at walks
    subst walks
    exact GitRepository.run_walked_missing missing
  | file | blocked =>
    simp only [Walks, isPlace] at walks
    subst walks
    rfl

/-- In the branch, the version-control program says whether anything stands at a path. -/
theorem fileExists_branch (shown : tree.IsShown handler repository path)
    (notOut : repository.isCheckedOut = false) (isText : path.text? = some text)
    (inner : ∀ component ∈ path.components, component.escapes = false) (state : σ) :
    ((repository.answer (.fileExists path)).run.run handler state).1 =
      .ok (decide (path.location ≠ []) && (tree.place path.location).stands) := by
  obtain ⟨leads, joined⟩ := Path.named_of_text? isText inner
  obtain ⟨complaint, prints⟩ := shown.exists_
  have runs : repository.Runs (.fileExists path) := ⟨notOut, by simp [isText]⟩
  rw [repository.result_of_printed runs shown.goesOn prints]
  simp only [GitRepository.reading]
  rw [GitRepository.concluded_bind rfl, lossyText_bytes, joined, leads]
  cases stands : (tree.place ((Path.names text).map bytes)).stands with
  | false =>
    simp [ended, entries, split, pure, Except.pure]
  | true =>
    by_cases top : Path.names text = []
    · simp [top, ended, entries, split, pure, Except.pure]
    · obtain ⟨file, mem, leads⟩ := proper_of_stands stands top
      obtain ⟨filled, whole⟩ := tree.entry_of_leads mem leads top
      rw [if_pos rfl, entries_ended (by simpa using filled) (by simpa using whole)]
      simp [top, pure, Except.pure]

/-- In the branch, the version-control program prints the files. -/
theorem files_branch (shown : tree.IsShown handler repository path)
    (notOut : repository.isCheckedOut = false) (isText : path.text? = some text)
    (inner : ∀ component ∈ path.components, component.escapes = false) (state : σ) :
    ((repository.answer (.files path)).run.run handler state).1 =
      .ok (if path.location = [] then [] else tree.listing path.location) := by
  obtain ⟨leads, joined⟩ := Path.named_of_text? isText inner
  obtain ⟨printed, complaint, same, prints⟩ := shown.lists
  have runs : repository.Runs (.files path) := ⟨notOut, by simp [isText]⟩
  rw [repository.result_of_printed runs shown.goesOn prints]
  have entry : ∀ name ∈ printed, name ≠ "" ∧ '\x00' ∉ name.toList := by
    intro name mem
    obtain ⟨file, kept, rfl⟩ := List.mem_map.1 (same.mem_iff.1 mem)
    exact tree.entry_of_mem (List.mem_filter.1 kept).1
  simp only [GitRepository.reading]
  rw [GitRepository.concluded_bind rfl, lossyText_bytes,
    entries_ended (fun name mem => (entry name mem).1) (fun name mem => (entry name mem).2), joined]
  refine congrArg Except.ok ?_
  rw [leads] at same ⊢
  rw [ascending_perm (same.filterMap _)]
  by_cases top : Path.names text = []
  · have none : ∀ file ∈ tree.files,
        GitRepository.relativeTo? "" ("/".intercalate file) = none :=
      fun file mem => GitRepository.relativeTo?_empty (tree.isPart mem)
    rw [top, List.map_nil, if_pos rfl, List.filterMap_map, List.filterMap_eq_nil_iff.2]
    · exact ascending_nil
    · exact fun file mem => none file (List.mem_filter.1 mem).1
  · rw [if_neg (by simpa using top), listing,
      tree.filterMap_relativeTo? top fun name mem => Path.isPart_of_mem_names mem]

end IsShown

/-! ## Agreement -/

section

variable {here : Location}

theorem locations_apart {file other : Location} (mem : file ∈ tree.locations)
    (mem' : other ∈ tree.locations) (leads : file <+: other) : file = other := by
  obtain ⟨first, isIn, rfl⟩ := List.mem_map.1 mem
  obtain ⟨second, isIn', rfl⟩ := List.mem_map.1 mem'
  obtain ⟨front, isFront, same⟩ := List.prefix_map_iff.1 leads
  obtain rfl := List.map_injective_iff.2 bytes_injective same
  rw [tree.apart _ isIn _ isIn' isFront]

theorem nil_not_mem_locations : [] ∉ tree.locations := by
  intro mem
  obtain ⟨file, isIn, empty⟩ := List.mem_map.1 mem
  exact tree.below (List.map_eq_nil_iff.1 empty ▸ isIn)

theorem place_eq_file_iff : tree.place here = .file ↔ here ∈ tree.locations := by
  unfold place
  split
  · simp_all
  · split
    · simp_all
    · split <;> simp_all

/-- The way is blocked exactly if a file stands on it. -/
theorem place_eq_blocked_iff :
    tree.place here = .blocked ↔ ∃ file ∈ tree.locations, file <+: here ∧ file ≠ here := by
  constructor
  · intro blocked
    unfold place at blocked
    split at blocked
    · contradiction
    · next other =>
      split at blocked
      · contradiction
      · split at blocked
        · next found =>
          obtain ⟨file, mem, leads⟩ := found
          exact ⟨file, mem, leads, fun same => other (same ▸ mem)⟩
        · contradiction
  · rintro ⟨file, mem, leads, other⟩
    have noFile : here ∉ tree.locations := fun mem' => other (locations_apart mem mem' leads)
    have noDirectory : ¬ (here = [] ∨ ∃ inner ∈ tree.locations, here <+: inner) := by
      rintro (rfl | ⟨inner, mem', below⟩)
      · exact other (List.prefix_nil.1 leads)
      · obtain rfl := locations_apart mem mem' (leads.trans below)
        exact other (leads.eq_of_length_le below.length_le)
    rw [place, if_neg noFile, if_neg noDirectory, if_pos ⟨file, mem, leads⟩]

/-- Files stand below the root unless there are none. -/
theorem listing_nil : tree.listing [] = [] ↔ tree.files = [] := by
  have all : tree.beyond [] = tree.files := by
    simp [beyond]
  have kept : tree.files.filter (· ≠ []) = tree.files :=
    List.filter_eq_self.2 fun file mem =>
      decide_eq_true fun empty => tree.below (empty ▸ mem)
  rw [listing, all, kept, ascending, ← List.length_eq_zero_iff, List.length_mergeSort,
    List.length_map, List.length_eq_zero_iff]

/-- Where nothing stands, no files stand below. -/
theorem listing_of_not_stands (missing : (tree.place here).stands = false) :
    here ≠ [] ∧ tree.listing here = [] := by
  have noDirectory : ¬ (here = [] ∨ ∃ file ∈ tree.locations, here <+: file) := by
    intro isDirectory
    unfold place at missing
    split at missing
    · contradiction
    · simp [Place.stands] at missing
  have nothing : tree.beyond here = [] := by
    refine List.filterMap_eq_nil_iff.2 fun file mem => if_neg fun leads => ?_
    exact noDirectory (.inr ⟨_, List.mem_map_of_mem mem, leads⟩)
  refine ⟨fun top => noDirectory (.inl top), ?_⟩
  rw [listing, nothing]
  exact ascending_nil

/-- No file stands at or on the way to a directory, or to where nothing stands but for other
reasons. -/
theorem free_way (noFile : tree.place here ≠ .file) (unblocked : tree.place here ≠ .blocked) :
    ∀ file ∈ tree.locations, ¬ file <+: here := by
  intro file mem leads
  by_cases same : file = here
  · exact noFile (place_eq_file_iff.2 (same ▸ mem))
  · exact unblocked (place_eq_blocked_iff.2 ⟨file, mem, leads, same⟩)

/-- The root is a directory. -/
theorem place_nil : tree.place [] = .directory := by
  rw [place, if_neg nil_not_mem_locations, if_pos (.inl rfl)]

/-- A query whether there is a file is answered by the system as by the version-control program
exactly if the path has a name and no file is to be entered. -/
theorem existence_eq_iff {path : Path} :
    GitRepository.existence "file_exists" ((tree.place here).kind path) =
        .ok (decide (here ≠ []) && (tree.place here).stands) ↔
      here ≠ [] ∧ ∀ file ∈ tree.locations, file <+: here →
        file = here ∧ FileTree.namesDirectory path = false := by
  cases isPlace : tree.place here with
  | file =>
    have mem := place_eq_file_iff.1 isPlace
    have filled : here ≠ [] := fun top => nil_not_mem_locations (top ▸ mem)
    cases ends : FileTree.namesDirectory path with
    | true =>
      have entered : ¬ ∀ file ∈ tree.locations, file <+: here → file = here ∧ true = false :=
        fun all => nomatch (all here mem (List.prefix_refl here)).2
      simp only [Place.kind, ends, GitRepository.existence]
      exact ⟨nofun, fun both => absurd both.2 entered⟩
    | false =>
      have only : ∀ file ∈ tree.locations, file <+: here → file = here ∧ false = false :=
        fun file mem' leads => ⟨locations_apart mem' mem leads, rfl⟩
      simp only [Place.kind, ends, GitRepository.existence, Place.stands, Bool.and_true]
      exact ⟨fun _ => ⟨filled, by simpa using only⟩, fun _ => by simp [filled]⟩
  | directory =>
    have free := free_way (by rw [isPlace]; exact nofun) (by rw [isPlace]; exact nofun)
    simp only [Place.kind, GitRepository.existence, Place.stands, Bool.and_true, Except.ok.injEq]
    refine ⟨fun filled => ⟨of_decide_eq_true filled.symm, ?_⟩, fun both => by simp [both.1]⟩
    exact fun file mem leads => absurd leads (free file mem)
  | nothing =>
    have free := free_way (by rw [isPlace]; exact nofun) (by rw [isPlace]; exact nofun)
    have filled : here ≠ [] := by
      rintro rfl
      exact nomatch isPlace.symm.trans place_nil
    simp only [Place.kind, GitRepository.existence, Place.stands, Bool.and_false]
    exact ⟨fun _ => ⟨filled, fun file mem leads => absurd leads (free file mem)⟩, fun _ => trivial⟩
  | blocked =>
    obtain ⟨file, mem, leads, other⟩ := place_eq_blocked_iff.1 isPlace
    simp only [Place.kind, GitRepository.existence]
    exact ⟨nofun, fun both => absurd (both.2 file mem leads).1 other⟩

/-- A query for files is answered by the system as by the version-control program exactly if no file
is to be entered, and the root is asked about only if there are none. -/
theorem walkedFiles_eq_iff :
    tree.walkedFiles here = .ok (if here = [] then [] else tree.listing here) ↔
      (here = [] → tree.files = []) ∧ ∀ file ∈ tree.locations, ¬ file <+: here := by
  cases isPlace : tree.place here with
  | directory =>
    have free := free_way (by rw [isPlace]; exact nofun) (by rw [isPlace]; exact nofun)
    simp only [walkedFiles, isPlace, Except.ok.injEq]
    by_cases top : here = []
    · subst top
      simp only [if_true, listing_nil]
      exact ⟨fun none => ⟨fun _ => none, free⟩, fun both => both.1 trivial⟩
    · simp only [if_neg top, true_iff]
      exact ⟨fun empty => absurd empty top, free⟩
  | nothing =>
    have free := free_way (by rw [isPlace]; exact nofun) (by rw [isPlace]; exact nofun)
    have missing : (tree.place here).stands = false := by rw [isPlace]; rfl
    obtain ⟨filled, empty⟩ := listing_of_not_stands missing
    simp only [walkedFiles, isPlace, if_neg filled, empty, true_iff]
    exact ⟨fun top => absurd top filled, free⟩
  | file =>
    have mem := place_eq_file_iff.1 isPlace
    simp only [walkedFiles, isPlace]
    exact ⟨nofun, fun both => absurd (List.prefix_refl here) (both.2 here mem)⟩
  | blocked =>
    obtain ⟨file, mem, leads, -⟩ := place_eq_blocked_iff.1 isPlace
    simp only [walkedFiles, isPlace]
    exact ⟨nofun, fun both => absurd leads (both.2 file mem)⟩

/-- Nothing that the system says about a path is that it is no text. -/
theorem existence_ne_invalidInput {path : Path} {operation reason : String} (place : Place) :
    GitRepository.existence operation (place.kind path) ≠ .error (.invalidInput reason) := by
  intro same
  cases place with
  | file => cases ends : FileTree.namesDirectory path <;> simp [Place.kind, ends,
      GitRepository.existence] at same
  | _ => simp [Place.kind, GitRepository.existence] at same

theorem walkedFiles_ne_invalidInput {reason : String} :
    tree.walkedFiles here ≠ .error (.invalidInput reason) := by
  unfold walkedFiles
  split <;> simp

end

variable {σ : Type}

/-- What is said of the working copy is said of the branch, too, unless a file is to be entered
there, the path is no text, or it leads to the root. -/
theorem trees_agree_iff (tree : BranchTree) (handler : Program.Handler Host σ)
    (repository : GitRepository) (path : Path)
    (inner : ∀ component ∈ path.components, component.escapes = false)
    (shown : tree.IsShown handler repository path) (state later : σ) :
    let told (isOut : Bool) (query : Query) (state : σ) : Except RepositoryError query.Result :=
      ((({ repository with isCheckedOut := isOut } : GitRepository).answer query).run.run
        handler state).1
    let here := path.location
    (told true (.fileExists path) state = told false (.fileExists path) later ↔
      path.text? ≠ none ∧ here ≠ [] ∧ ∀ file ∈ tree.locations, file <+: here →
        file = here ∧ FileTree.namesDirectory path = false) ∧
    (told true (.files path) state = told false (.files path) later ↔
      path.text? ≠ none ∧ (here = [] → tree.files = []) ∧
        ∀ file ∈ tree.locations, ¬ file <+: here) ∧
    (path.text? ≠ none →
      told false (.fileExists path) later =
          .ok (decide (here ≠ []) && (tree.place here).stands) ∧
        told false (.files path) later = .ok (if here = [] then [] else tree.listing here)) ∧
    ((∃ file ∈ tree.locations, file <+: here ∧ file ≠ here) →
      told true (.fileExists path) state = .error (.system "file_exists" .notADirectory) ∧
        told true (.files path) state = .error (.system "list_files" .notADirectory)) := by
  intro told here
  have thereOut : told true (.fileExists path) state = _ :=
    (shown.either true).fileExists_workTree rfl state
  have filesOut : told true (.files path) state = _ :=
    (shown.either true).files_workTree rfl state
  have branch {text : String} (isText : path.text? = some text) :
      told false (.fileExists path) later = _ ∧ told false (.files path) later = _ :=
    ⟨(shown.either false).fileExists_branch rfl isText inner later,
      (shown.either false).files_branch rfl isText inner later⟩
  have refused (noText : path.text? = none) :
      told false (.fileExists path) later = _ ∧ told false (.files path) later = _ :=
    GitRepository.answer_noText rfl noText handler later
  refine ⟨?_, ?_, ?_, ?_⟩
  · cases isText : path.text? with
    | none =>
      rw [thereOut, (refused isText).1]
      exact ⟨fun same => absurd same (existence_ne_invalidInput _), fun both => absurd rfl both.1⟩
    | some text =>
      rw [thereOut, (branch isText).1, existence_eq_iff]
      exact ⟨fun rest => ⟨nofun, rest⟩, And.right⟩
  · cases isText : path.text? with
    | none =>
      rw [filesOut, (refused isText).2]
      exact ⟨fun same => absurd same walkedFiles_ne_invalidInput, fun both => absurd rfl both.1⟩
    | some text =>
      rw [filesOut, (branch isText).2, walkedFiles_eq_iff]
      exact ⟨fun rest => ⟨nofun, rest⟩, And.right⟩
  · intro isText
    obtain ⟨text, isText⟩ := Option.ne_none_iff_exists'.1 isText
    exact branch isText
  · intro found
    have blocked := place_eq_blocked_iff.2 found
    rw [blocked] at thereOut
    rw [walkedFiles, blocked] at filesOut
    exact ⟨thereOut, filesOut⟩

/-- A page that one language has as a file and another as a directory. -/
def guide : BranchTree where
  files := [["content", "en", "guide"], ["content", "ja", "guide", "a.md"]]
  below := by decide
  proper := by unfold Path.IsPart; decide
  noMetadata := by decide
  apart := by decide

end BranchTree

/-- What a machine answers as long as nothing changes it. -/
def Machine.still (machine : Machine) : Program.Handler Host Unit :=
  fun request _ => ((Machine.handle request machine).1, ())

/-- A machine with that page in a working copy, where the version-control program prints nothing. -/
def Machine.guide : Machine where
  files := ⟨[
    ([bytes "r"], .directory),
    ([bytes "r", bytes "content"], .directory),
    ([bytes "r", bytes "content", bytes "en"], .directory),
    ([bytes "r", bytes "content", bytes "en", bytes "guide"], .file []),
    ([bytes "r", bytes "content", bytes "ja"], .directory),
    ([bytes "r", bytes "content", bytes "ja", bytes "guide"], .directory),
    ([bytes "r", bytes "content", bytes "ja", bytes "guide", bytes "a.md"], .file [])]⟩
  directory := []
  rules := some [⟨"ls-tree", ⟨0, [], []⟩, none⟩]

namespace BranchTree

/-- Below the page that is a file, the working copy can not be looked into, and the branch has
nothing. -/
theorem trees_agree_iff_guide :
    let told (isOut : Bool) (query : Query) : Except RepositoryError query.Result :=
      ((GitRepository.answer ⟨Path.ofText "/r/", "origin", "main", isOut⟩ query).run.run
        Machine.guide.still ()).1
    let path := Path.ofText "content/en/guide/a.md"
    told true (.fileExists path) = .error (.system "file_exists" .notADirectory) ∧
      told false (.fileExists path) = .ok false ∧
      told true (.files path) = .error (.system "list_files" .notADirectory) ∧
      told false (.files path) = .ok [] := by
  intro told path
  have isPlace : guide.place path.location = .blocked := by decide +kernel
  have shown :
      guide.IsShown Machine.guide.still ⟨Path.ofText "/r/", "origin", "main", true⟩ path := by
    have looks : Machine.guide.kind ((Path.ofText "/r/").join path) = .error .notADirectory := by
      decide +kernel
    have stops : Machine.guide.files.existing [] ((Path.ofText "/r/").join path) =
        .error .notADirectory := by
      decide +kernel
    have walks : Machine.guide.files.walk [] ((Path.ofText "/r/").join path) =
        .unreadable .notADirectory := by
      rw [FileTree.walk, stops]
    refine ⟨fun _ => rfl, fun _ => ?_, fun _ => ?_, ⟨[], fun _ => ?_⟩, ⟨[], [], ?_, fun _ => ?_⟩⟩
    · rw [isPlace]
      exact looks
    · simp only [Walks, isPlace]
      exact walks
    · rw [isPlace]
      show (Machine.guide.git _).1 = _
      decide +kernel
    · decide +kernel
    · show (Machine.guide.git _).1 = _
      decide +kernel
  have agree := trees_agree_iff guide Machine.guide.still _ path (by decide +kernel) shown () ()
  have onWay : ∃ file ∈ guide.locations, file <+: path.location ∧ file ≠ path.location := by
    decide +kernel
  obtain ⟨out, out'⟩ := agree.2.2.2 onWay
  obtain ⟨there, files⟩ := agree.2.2.1 (by decide +kernel)
  have missing : (guide.place path.location).stands = false := by rw [isPlace]; rfl
  obtain ⟨filled, empty⟩ := listing_of_not_stands missing
  refine ⟨out, there.trans ?_, out', files.trans ?_⟩
  · rw [isPlace, Place.stands, Bool.and_false]
  · rw [if_neg filled, empty]

end BranchTree

end LocaleWatch
