import LocaleWatch.CommandLine.Commands
import LocaleWatch.Proofs.Events
import LocaleWatch.Proofs.Files.Disk
import LocaleWatch.Proofs.Git.Trees
import LocaleWatch.Proofs.Requests

/-!
# Files inside the directories of their languages

A check compares the file that a path leads to from the directory of a language with the file that
the same path leads to from the directory of the origin language. Those are all the files that it
looks at.

A content directory that is accepted has only names as its components, and a language code is one
name. So a path of names leads to corresponding files, one below each of the two directories. But
the paths of a check are taken as they come. A path that starts at the root leads to one file from
everywhere, and so does a path that goes further up than down: it leaves the directory of its
language, and what follows does not know where it came from. Of paths that are listed, none does.

## Main results

* `Location.along_siblings_eq_iff` — ways from two directories that stand side by side meet exactly
  if they leave them.
* `asks_checkFiles` — what a check looks at.
* `Layout.correspond_iff` — when the two files lie below the directories of their languages.
* `Layout.leads_eq_iff` — when they are one file.
* `checked_files_inside_iff` — all of this about an accepted layout.
-/

namespace LocaleWatch

open Text

/-! ## Ways out of a directory -/

namespace Path

/-- Whether components, taken from a place `depth` names below a directory, leave that directory: to
the root, or to what the directory is in. -/
def leaves : Nat → List Component → Bool
  | _, [] => false
  | _, .root :: _ => true
  | 0, .up :: _ => true
  | depth + 1, .up :: rest => leaves depth rest
  | depth, .name _ :: rest => leaves (depth + 1) rest

@[simp] theorem leaves_nil (depth : Nat) : leaves depth [] = false := by
  cases depth <;> rfl

@[simp] theorem leaves_root (depth : Nat) (rest : List Component) :
    leaves depth (.root :: rest) = true := by
  cases depth <;> rfl

@[simp] theorem leaves_zero_up (rest : List Component) : leaves 0 (.up :: rest) = true := rfl

@[simp] theorem leaves_succ_up (depth : Nat) (rest : List Component) :
    leaves (depth + 1) (.up :: rest) = leaves depth rest := rfl

@[simp] theorem leaves_name (depth : Nat) (name : List UInt8) (rest : List Component) :
    leaves depth (.name name :: rest) = leaves (depth + 1) rest := by
  cases depth <;> rfl

/-- Names leave no directory. -/
theorem leaves_of_inner {components : List Component}
    (inner : ∀ component ∈ components, component.escapes = false) {depth : Nat} :
    leaves depth components = false := by
  induction components generalizing depth with
  | nil => rw [leaves_nil]
  | cons component rest ih =>
    obtain ⟨first, later⟩ := List.forall_mem_cons.1 inner
    cases component with
    | root | up => contradiction
    | name name => rw [leaves_name, ih later]

end Path

namespace Location

/-- Ways from two places that lie alike below two directories which stand side by side lead to the
same place exactly if that is one directory or they leave it. -/
theorem along_siblings_eq_iff (here inner : Location) (first second : List UInt8)
    (components : List Path.Component) :
    along (here ++ first :: inner) components = along (here ++ second :: inner) components ↔
      first = second ∨ Path.leaves inner.length components = true := by
  induction components generalizing inner with
  | nil => simp [along]
  | cons component rest ih =>
    show along (step _ component) rest = along (step _ component) rest ↔ _
    cases component with
    | root => simp [step]
    | up =>
      -- Above the two directories both ways are in the same place, and stay together.
      obtain rfl | ⟨front, last, rfl⟩ := List.eq_nil_or_concat inner
      · simp [step]
      · have above (name : List UInt8) :
            step (here ++ name :: (front ++ [last])) .up = here ++ name :: front := by
          rw [step, ← List.cons_append, ← List.append_assoc, List.dropLast_concat]
        rw [List.concat_eq_append, above, above, ih front, List.length_append,
          List.length_singleton, Path.leaves_succ_up]
    | name name =>
      have below (top : List UInt8) :
          step (here ++ top :: inner) (.name name) = here ++ top :: (inner ++ [name]) := by
        rw [step, List.append_assoc, List.cons_append]
      rw [below, below, ih (inner ++ [name]), List.length_append, List.length_singleton,
        Path.leaves_name]

end Location

/-! ## What a check looks at -/

/-- The requests that a check of some files of a language comes to. It asks for the last commits of
the language's files, for the presence and the later commits of the origin language's files, and for
what is kept about either. It lists nothing, forgets nothing and does not cancel the run. -/
def Layout.Consults (layout : Layout) (language : String) (paths : List String) :
    Tracking.Request → Prop
  | .query (.lastCommit file) => ∃ path ∈ paths, file = layout.file language path
  | .query (.fileExists file) | .query (.commitsAfter file _) =>
    ∃ path ∈ paths, file = layout.file layout.origin path
  | .query (.files _) | .query (.filesIn _) | .query (.filesBetween _ _) => False
  | .read category key | .write category key _ =>
    (category = History.lastCommitCategory →
      ∃ path ∈ paths, key = (layout.file language path).key) ∧
    (category = History.commitsAfterCategory →
      ∃ path ∈ paths, key = (layout.file layout.origin path).key)
  | .delete _ _ | .holds _ _ | .cancel => False
  | _ => True

open Attempt

section

variable {layout : Layout} {language : String} {paths : List String}

/-- A check looks up whatever is kept about no file. -/
private theorem mayLookUp_other {category : String} (key : String) {query : Query}
    (last : category ≠ History.lastCommitCategory)
    (later : category ≠ History.commitsAfterCategory)
    (may : layout.Consults language paths (.query query)) :
    Tracking.MayLookUp (layout.Consults language paths) category key query where
  reads := ⟨fun same => absurd same last, fun same => absurd same later⟩
  writes _ := ⟨fun same => absurd same last, fun same => absurd same later⟩
  asks := may

/-- A check looks at the files that its paths lead to from the directories of the two languages, and
at no others. -/
theorem asks_checkFiles (layout : Layout) (language : String) (paths : List String) :
    (Staleness.checkFiles layout language paths).Asks (layout.Consults language paths) := by
  refine (History.asks_mainBranch trivial
    (mayLookUp_other "" (by decide) (by decide) trivial)).bind fun main => .mapM fun path mem => ?_
  refine Staleness.asks_checkFile trivial layout main language path ?_ ⟨path, mem, rfl⟩
    (fun start => ?_) (fun commit => mayLookUp_other _ (by decide) (by decide) trivial)
    (fun commit => mayLookUp_other _ (by decide) (by decide) trivial)
  · exact ⟨⟨fun _ => ⟨path, mem, rfl⟩, nofun⟩, fun _ => ⟨fun _ => ⟨path, mem, rfl⟩, nofun⟩,
      ⟨path, mem, rfl⟩⟩
  · exact ⟨⟨nofun, fun _ => ⟨path, mem, rfl⟩⟩, fun _ => ⟨nofun, fun _ => ⟨path, mem, rfl⟩⟩,
      ⟨path, mem, rfl⟩⟩

/-- A check of a file reads what is kept of its last commit and asks for the origin file. -/
private theorem consulted_of_checkFile {layout : Layout} {language path : String}
    {main : MainBranch} {events : List (Event Tracking)} {state : LocalizedFile}
    (ends : Ends (Staleness.checkFile layout main language path) events (.ok state)) :
    (∃ told, Event.read History.lastCommitCategory (layout.file language path).key told ∈ events) ∧
      ∃ told, Event.query (.fileExists (layout.file layout.origin path)) told ∈ events := by
  unfold Staleness.checkFile at ends
  obtain ⟨last, before, after, rfl, looked, rest⟩ := ends_bind_ok.1 ends
  have reads : ∃ told,
      Event.read History.lastCommitCategory (layout.file language path).key told ∈ before := by
    rcases ends_get_ok looked with ⟨held, rfl, -⟩ | ⟨computing, rfl, -⟩
    · exact ⟨.ok held, List.mem_cons_of_mem _ List.mem_cons_self⟩
    · exact ⟨.ok none, List.mem_append_left _ (List.mem_cons_of_mem _ List.mem_cons_self)⟩
  have asks : ∃ told, Event.query (.fileExists (layout.file layout.origin path)) told ∈ after := by
    cases last with
    | none =>
      obtain ⟨⟨fork, merge⟩, _, _, rfl, -, rest⟩ := ends_bind_ok.1 rest
      obtain ⟨originExists, _, _, rfl, asked, -⟩ := ends_bind_ok.1 rest
      rw [ends_query_ok.1 asked]
      exact ⟨.ok originExists, by simp⟩
    | some last =>
      obtain ⟨_, _, _, rfl, -, rest⟩ := ends_bind_ok.1 rest
      obtain ⟨_, _, _, rfl, -, rest⟩ := ends_bind_ok.1 rest
      obtain ⟨⟨fork, merge⟩, _, _, rfl, -, rest⟩ := ends_bind_ok.1 rest
      obtain ⟨originExists, _, _, rfl, asked, -⟩ := ends_bind_ok.1 rest
      rw [ends_query_ok.1 asked]
      exact ⟨.ok originExists, by simp⟩
  obtain ⟨kept, isRead⟩ := reads
  obtain ⟨told, isAsked⟩ := asks
  exact ⟨⟨kept, List.mem_append_left _ isRead⟩, ⟨told, List.mem_append_right _ isAsked⟩⟩

/-- A check that gives states has looked at the two files of each of its paths. -/
theorem consulted_of_checkFiles {events : List (Event Tracking)} {states : List LocalizedFile}
    (ends : Ends (Staleness.checkFiles layout language paths) events (.ok states))
    {path : String} (mem : path ∈ paths) :
    (∃ told, Event.read History.lastCommitCategory (layout.file language path).key told ∈ events) ∧
      ∃ told, Event.query (.fileExists (layout.file layout.origin path)) told ∈ events := by
  obtain ⟨main, before, after, rfl, -, checks⟩ := ends_bind_ok.1 ends
  obtain ⟨state, -, part, among, ran⟩ := checks.rounds.1 path mem
  obtain ⟨⟨kept, isRead⟩, ⟨told, isAsked⟩⟩ := consulted_of_checkFile ran
  exact ⟨⟨kept, List.mem_append_right _ (among.subset isRead)⟩,
    ⟨told, List.mem_append_right _ (among.subset isAsked)⟩⟩

end

/-! ## Where the files lie -/

/-- A content directory that is accepted is made of names. -/
theorem ContentDirectory.exists_names {directory accepted : Path}
    (fits : ContentDirectory.check directory = .ok accepted) :
    ∃ names : List String, names ≠ [] ∧ (∀ name ∈ names, Path.IsPart name ∧ name ≠ "..") ∧
      accepted = Path.ofText ("/".intercalate names) := by
  obtain ⟨rfl, filled, inner⟩ := ContentDirectory.check_eq_ok fits
  refine ⟨directory.components.map Path.Component.text, ?_, ?_, rfl⟩
  · intro none
    exact filled (by rw [Path.key, none]; rfl)
  · intro name mem
    obtain ⟨component, isIn, rfl⟩ := List.mem_map.1 mem
    exact Path.isPart_text isIn (inner component isIn)

/-- A language code is the name of a directory. -/
theorem LanguageCode.isName {code : String} (valid : check code = .ok ()) :
    Path.IsName (bytes code) := by
  have allowed := check_eq_ok_iff.1 valid
  simp only [isValid, Bool.and_eq_true] at allowed
  have no {c : Char} (other : isAllowed c = false) : c ∉ code.toList := fun mem =>
    Bool.eq_false_iff.1 other (List.all_eq_true.1 allowed.1.2 c mem)
  have ne {text : String} {c : Char} (mem : c ∈ text.toList) (other : isAllowed c = false) :
      bytes code ≠ bytes text := by
    intro same
    rw [← bytes_injective same] at mem
    exact no other mem
  constructor
  · intro mem
    exact no (by decide) (char_mem_of_byte_mem (by decide) (by decide) mem : '/' ∈ code.toList)
  · have filled : bytes code ≠ [] := by
      intro empty
      have void : code = "" := bytes_injective empty
      simp [void] at allowed
    have noStop : bytes code ≠ bytes "." := ne (c := '.') (by decide) (by decide)
    have notUp : bytes code ≠ bytes ".." := ne (c := '.') (by decide) (by decide)
    exact (if_neg (not_or.2 ⟨filled, noStop⟩)).trans (if_neg notUp)

/-- The components of names are those that lead to entries exactly if none of them is `..`. -/
theorem Path.map_ofName_eq_iff {parts names : List String} :
    (parts.map Component.ofName = names.map fun name => .name (Text.bytes name)) ↔
      parts = names ∧ ".." ∉ parts := by
  constructor
  · intro same
    have texts := congrArg (List.map Component.text) same
    have equal : parts = names := by simpa [Function.comp_def] using texts
    refine ⟨equal, fun up => ?_⟩
    have climbs : Component.up ∈ parts.map Component.ofName := List.mem_map.2 ⟨"..", up, rfl⟩
    rw [same] at climbs
    simp at climbs
  · rintro ⟨rfl, noUp⟩
    exact List.map_congr_left fun name mem => Component.ofName_of_ne fun up => noUp (up ▸ mem)

namespace Layout

/-- The file of a path and the origin file lie at the same place below the directories of their
languages: the same names, at least one, lead to them from there. -/
def Correspond (layout : Layout) (language path : String) : Prop :=
  ∃ names : List String, names ≠ [] ∧ ∀ code ∈ [language, layout.origin],
    (layout.file code path).components =
      layout.directory.components ++ .name (bytes code) :: names.map fun name => .name (bytes name)

variable {layout : Layout} {language path : String}

theorem components_languageDirectory (isCode : LanguageCode.check language = .ok ()) :
    (layout.languageDirectory language).components =
      layout.directory.components ++ [.name (bytes language)] :=
  (LanguageCode.isName isCode).components_join layout.directory

theorem components_file (isCode : LanguageCode.check language = .ok ())
    (relative : path.toList.head? ≠ some '/') :
    (layout.file language path).components =
      layout.directory.components ++
        .name (bytes language) :: (Path.names path).map Path.Component.ofName := by
  have inner : (Path.ofText path).isAbsolute = false := by
    rw [Path.isAbsolute_ofText]
    exact decide_eq_false relative
  rw [file, Path.components_join _ inner, components_languageDirectory isCode,
    Path.components_ofText, if_neg relative, List.append_assoc]
  rfl

/-- A path that starts at the root leads to the same file from everywhere. -/
theorem file_of_absolute (absolute : path.toList.head? = some '/') :
    layout.file language path = Path.ofText path := by
  have root : (Path.ofText path).isAbsolute = true := by
    rw [Path.isAbsolute_ofText]
    exact decide_eq_true absolute
  rw [file, Path.join, if_pos root]

section

variable (isLanguage : LanguageCode.check language = .ok ())
  (isOrigin : LanguageCode.check layout.origin = .ok ())
include isLanguage isOrigin

/-- The two files lie below the directories of their languages exactly if the path has names only,
and at least one. -/
theorem correspond_iff
    (inner : ∀ component ∈ layout.directory.components, component.escapes = false) :
    layout.Correspond language path ↔
      Path.names path ≠ [] ∧ path.toList.head? ≠ some '/' ∧ ".." ∉ Path.names path := by
  constructor
  · rintro ⟨names, filled, below⟩
    have parts := below language List.mem_cons_self
    have relative : path.toList.head? ≠ some '/' := by
      intro absolute
      have root : Path.Component.root ∈ (layout.file language path).components := by
        rw [file_of_absolute absolute, Path.components_ofText, if_pos absolute]
        exact List.mem_append_left _ List.mem_cons_self
      rw [parts] at root
      rcases List.mem_append.1 root with outer | rest
      · exact Bool.noConfusion (inner _ outer)
      · simp at rest
    rw [components_file isLanguage relative, List.append_cancel_left_eq, List.cons.injEq,
      Path.map_ofName_eq_iff] at parts
    obtain ⟨-, rfl, noUp⟩ := parts
    exact ⟨filled, relative, noUp⟩
  · rintro ⟨filled, relative, noUp⟩
    have leads := Path.map_ofName_eq_iff.2 ⟨rfl, noUp⟩
    refine ⟨Path.names path, filled, fun code mem => ?_⟩
    have isCode : LanguageCode.check code = .ok () := by
      rcases List.mem_cons.1 mem with rfl | mem
      · exact isLanguage
      · rwa [List.mem_singleton.1 mem]
    rw [components_file isCode relative, leads]

/-- The two files are one exactly if the languages are one or the path leads out of their
directories. -/
theorem leads_eq_iff (here : Location) :
    Location.along here (layout.file language path).components =
        Location.along here (layout.file layout.origin path).components ↔
      language = layout.origin ∨ Path.leaves 0 (Path.ofText path).components = true := by
  by_cases absolute : path.toList.head? = some '/'
  · rw [file_of_absolute absolute, file_of_absolute absolute, Path.components_ofText,
      if_pos absolute, List.singleton_append, Path.leaves_root]
    exact iff_of_true rfl (.inr rfl)
  · rw [components_file isLanguage absolute, components_file isOrigin absolute,
      Location.along_append, Location.along_append, Path.components_ofText, if_neg absolute,
      List.nil_append]
    refine (Location.along_siblings_eq_iff _ [] (bytes language) (bytes layout.origin) _).trans ?_
    rw [bytes_injective.eq_iff]
    rfl

/-- A path of names leads to one file only if the languages are one. -/
theorem eq_of_leads_eq {here : Location}
    (inner : ∀ component ∈ (Path.ofText path).components, component.escapes = false)
    (same : Location.along here (layout.file language path).components =
      Location.along here (layout.file layout.origin path).components) :
    language = layout.origin := by
  rcases (leads_eq_iff isLanguage isOrigin here).1 same with equal | out
  · exact equal
  · rw [Path.leaves_of_inner inner] at out
    contradiction

end

end Layout

/-! ## Paths that are listed -/

namespace BranchTree

variable {tree : BranchTree}

/-- A listing holds paths of names only. -/
theorem names_of_mem_listing {here : Location} {path : String} (mem : path ∈ tree.listing here) :
    Path.names path ≠ [] ∧ path.toList.head? ≠ some '/' ∧ ".." ∉ Path.names path := by
  obtain ⟨names, kept, rfl⟩ := List.mem_map.1 ((ascending_perm_self _).mem_iff.1 mem)
  obtain ⟨isIn, filled⟩ := List.mem_filter.1 kept
  have proper := isPart_of_beyond isIn
  rw [Path.names_intercalate proper]
  refine ⟨of_decide_eq_true filled, Path.head?_intercalate proper, fun up => ?_⟩
  obtain ⟨file, known, rest⟩ := List.mem_filterMap.1 isIn
  split at rest
  · cases rest
    exact (tree.proper file known ".." (List.mem_of_mem_drop up)).2.1 rfl
  · contradiction

/-- What is listed, be it in the working copy or in the branch, are files of the tree. -/
theorem IsShown.subset_listing {σ : Type} {handler : Program.Handler Host σ}
    {repository : GitRepository} {path : Path} (shown : tree.IsShown handler repository path)
    (inner : ∀ component ∈ path.components, component.escapes = false) {state : σ}
    {listed : List String}
    (told : ((repository.answer (.files path)).run.run handler state).1 = .ok listed) :
    listed ⊆ tree.listing path.location := by
  cases isOut : repository.isCheckedOut with
  | true =>
    rw [shown.files_workTree isOut, walkedFiles] at told
    split at told <;> cases told
    · exact List.Subset.refl _
    · exact List.nil_subset _
  | false =>
    cases isText : path.text? with
    | none =>
      rw [(GitRepository.answer_noText isOut isText handler state).2] at told
      contradiction
    | some text =>
      rw [shown.files_branch isOut isText inner] at told
      cases told
      split
      · exact List.nil_subset _
      · exact List.Subset.refl _

end BranchTree

/-! ## Checks of an accepted layout -/

/-- In an accepted layout a check looks at the two files of each of its paths, and at no others.
They lie at the same place below the directories of their languages if the path has names only, and
at least one; so do those of listed paths. They are one file if the path leads out of a directory.
-/
theorem checked_files_inside_iff {directory accepted : Path} {language origin : String}
    (fits : ContentDirectory.check directory = .ok accepted)
    (isLanguage : LanguageCode.check language = .ok ())
    (isOrigin : LanguageCode.check origin = .ok ()) :
    let layout := Layout.below accepted origin
    (layout.directory = accepted ∧
      ∀ component ∈ accepted.components, component.escapes = false) ∧
    (∀ paths, (Staleness.checkFiles layout language paths).Asks (layout.Consults language paths) ∧
      ∀ events states, Ends (Staleness.checkFiles layout language paths) events (.ok states) →
        ∀ path ∈ paths,
          (∃ told, Event.read History.lastCommitCategory (layout.file language path).key told ∈
            events) ∧
          ∃ told, Event.query (.fileExists (layout.file origin path)) told ∈ events) ∧
    (∀ path,
      (layout.Correspond language path ↔
        Path.names path ≠ [] ∧ path.toList.head? ≠ some '/' ∧ ".." ∉ Path.names path) ∧
      ∀ here, Location.along here (layout.file language path).components =
          Location.along here (layout.file origin path).components ↔
        language = origin ∨ Path.leaves 0 (Path.ofText path).components = true) ∧
    ∀ {σ : Type} (tree : BranchTree) (handler : Program.Handler Host σ) (repository : GitRepository)
      (state : σ) (listed : List String),
      tree.IsShown handler repository (layout.languageDirectory language) →
      ((repository.answer (.files (layout.languageDirectory language))).run.run handler state).1 =
        .ok listed →
      ∀ path ∈ listed, layout.Correspond language path ∧
        (language ≠ origin → ∀ here, Location.along here (layout.file language path).components ≠
          Location.along here (layout.file origin path).components) := by
  intro layout
  obtain ⟨names, filled, proper, shape⟩ := ContentDirectory.exists_names fits
  have parts : ∀ name ∈ names, Path.IsPart name := fun name mem => (proper name mem).1
  have relative : ("/".intercalate names).toList.head? ≠ some '/' := Path.head?_intercalate parts
  have inner : ∀ component ∈ accepted.components, component.escapes = false := by
    rw [shape, Path.not_escapes_ofText_iff, Path.names_intercalate parts]
    exact ⟨relative, fun up => (proper ".." up).2 rfl⟩
  have same : layout.directory = accepted := by
    show Path.ofText accepted.key = accepted
    rw [shape, Path.key_ofText, if_neg relative, List.nil_append, Path.names_intercalate parts]
  have inner' : ∀ component ∈ layout.directory.components, component.escapes = false := by
    rwa [same]
  have correspond (path : String) : layout.Correspond language path ↔ _ :=
    Layout.correspond_iff isLanguage isOrigin inner'
  refine ⟨⟨same, inner⟩, fun paths => ⟨asks_checkFiles layout language paths,
    fun events states ends path mem => consulted_of_checkFiles ends mem⟩,
    fun path => ⟨correspond path, Layout.leads_eq_iff isLanguage isOrigin⟩, ?_⟩
  intro σ tree handler repository state listed shown told path mem
  have stays : ∀ component ∈ (layout.languageDirectory language).components,
      component.escapes = false := by
    rw [Layout.components_languageDirectory isLanguage, List.forall_mem_append]
    exact ⟨inner', List.forall_mem_singleton.2 rfl⟩
  have onlyNames := BranchTree.names_of_mem_listing (shown.subset_listing stays told mem)
  have entered := Path.not_escapes_ofText_iff.2 onlyNames.2
  exact ⟨(correspond path).2 onlyNames, fun other here one =>
    other (Layout.eq_of_leads_eq isLanguage isOrigin entered one)⟩

/-- A path that goes up and into the origin language's directory compares the origin file with
itself. -/
theorem checked_files_inside_iff_upward :
    let layout := Layout.below (Path.ofText "content") "en"
    ¬ layout.Correspond "ja" "../en/a.md" ∧ layout.Correspond "ja" "a.md" ∧
      ∀ here, Location.along here (layout.file "ja" "../en/a.md").components =
        Location.along here (layout.file "en" "../en/a.md").components := by
  intro layout
  have fits : ContentDirectory.check (Path.ofText "./content/") = .ok (Path.ofText "content") := by
    decide +kernel
  obtain ⟨-, -, paths, -⟩ := checked_files_inside_iff fits
    (show LanguageCode.check "ja" = .ok () by decide +kernel)
    (show LanguageCode.check "en" = .ok () by decide +kernel)
  refine ⟨?_, ?_, fun here => ?_⟩
  · rw [(paths "../en/a.md").1]
    decide +kernel
  · rw [(paths "a.md").1]
    decide +kernel
  · rw [(paths "../en/a.md").2]
    decide +kernel

end LocaleWatch
