import LocaleWatch.Proofs.Git.QuotedNames
import LocaleWatch.Proofs.History.StartPoints
import LocaleWatch.Proofs.Staleness.Inside

/-!
# Keys of localized files

A localized file is looked up by a path that is put together: from the content directory as somebody
wrote it, a language, and a path below the language's directory. A refresh forgets a file by the
path that the repository lists. The two meet only if both come to one key.

They do, whatever the spelling. A content directory is accepted as the names that it is made of,
with single separators between them, and to accept that once more changes nothing. The layout takes
a directory in the same form, so it does not matter whether it is given what was written or what was
accepted. A join puts names behind names. So the key of a file is made of the names of the
directory, the language and the names of the path, and nothing else is left of the spellings.

## Main results

* `ContentDirectory.check_eq_error_iff` — which directories are refused.
* `ContentDirectory.check_ofText_eq_ok` — as what a directory is accepted.
* `Layout.key_file` — the key of a file.
* `Layout.asks_keptUnder` — a check keeps to the keys of its files.
* `keys_of_checked_files` — all of this about an accepted directory, and what a refresh forgets.
-/

namespace LocaleWatch

open Text

/-! ## Content directories -/

namespace Path

/-- Components that lead nowhere but to names leave no empty key, unless there are none. -/
theorem key_eq_empty_iff {path : Path}
    (inner : ∀ component ∈ path.components, component.escapes = false) :
    path.key = "" ↔ path.components = [] := by
  constructor
  · intro empty
    by_contra filled
    refine intercalate_ne_empty (by simpa using filled) (fun part mem => ?_) empty
    obtain ⟨component, isIn, rfl⟩ := List.mem_map.1 mem
    exact (isPart_text isIn (inner component isIn)).1
  · intro none
    rw [key, none]
    rfl

/-- A path that leads nowhere but to names has the key that joins them. -/
theorem key_of_inner {text : String}
    (inner : ∀ component ∈ (ofText text).components, component.escapes = false) :
    (ofText text).key = "/".intercalate (names text) := by
  rw [key_ofText, if_neg (not_escapes_ofText_iff.1 inner).1, List.nil_append]

/-- What joins names has these names as its components. -/
theorem components_intercalate {parts : List String} (proper : ∀ part ∈ parts, IsPart part) :
    (ofText ("/".intercalate parts)).components = parts.map Component.ofName := by
  rw [components_ofText, if_neg (head?_intercalate proper), List.nil_append,
    names_intercalate proper]

/-- A language's name and the like can stand between separators. -/
theorem IsName.isPart {name : String} (isName : IsName (Text.bytes name)) : IsPart name := by
  have empty : component? (Text.bytes "") = none := by decide
  have stop : component? (Text.bytes ".") = none := by decide
  refine ⟨?_, ?_, fun mem => isName.1 (slash_mem_encode.2 mem)⟩
  · rintro rfl
    exact nomatch empty.symm.trans isName.2
  · rintro rfl
    exact nomatch stop.symm.trans isName.2

end Path

namespace ContentDirectory

/-- A directory is refused exactly if it comes by the root or goes up, or has no name at all. -/
theorem check_eq_error_iff {directory : Path} :
    check directory = .error ⟨directory⟩ ↔
      (∃ component ∈ directory.components, component = .root ∨ component = .up) ∨
        ∀ component ∈ directory.components, ∀ name, component ≠ .name name := by
  have isEscape (component : Path.Component) :
      component.escapes = true ↔ component = .root ∨ component = .up := by
    cases component <;> simp [Path.Component.escapes]
  have refused : check directory = .error ⟨directory⟩ ↔
      (∃ component ∈ directory.components, component.escapes = true) ∨ directory.key = "" := by
    unfold check
    split <;> simp_all
  rw [refused]
  simp only [isEscape]
  by_cases out : ∃ component ∈ directory.components, component = .root ∨ component = .up
  · simp only [out, true_or]
  · have inner : ∀ component ∈ directory.components, component.escapes = false := by
      intro component mem
      rw [← Bool.not_eq_true, isEscape]
      exact fun escapes => out ⟨component, mem, escapes⟩
    rw [or_iff_right out, or_iff_right out, Path.key_eq_empty_iff inner]
    constructor
    · intro none
      simp [none]
    · intro nameless
      rw [List.eq_nil_iff_forall_not_mem]
      intro component mem
      cases component with
      | root | up => cases inner _ mem
      | name name => exact nameless _ mem name rfl

variable {text : String} {accepted : Path}

/-- A directory is accepted as the names that it is made of. -/
theorem check_ofText_eq_ok (fits : check (.ofText text) = .ok accepted) :
    (∀ component ∈ (Path.ofText text).components, component.escapes = false) ∧
      Path.names text ≠ [] ∧ accepted = .ofText ("/".intercalate (Path.names text)) := by
  obtain ⟨rfl, filled, inner⟩ := check_eq_ok fits
  rw [Path.key_of_inner inner] at filled ⊢
  refine ⟨inner, fun none => filled ?_, rfl⟩
  rw [none]
  rfl

/-- Names that are joined are accepted as they are. -/
theorem check_intercalate {parts : List String} (filled : parts ≠ [])
    (proper : ∀ part ∈ parts, Path.IsPart part ∧ part ≠ "..") :
    check (.ofText ("/".intercalate parts)) = .ok (.ofText ("/".intercalate parts)) := by
  have isPart : ∀ part ∈ parts, Path.IsPart part := fun part mem => (proper part mem).1
  have stays : (Path.ofText ("/".intercalate parts)).components.any Path.Component.escapes =
      false := by
    rw [Path.components_intercalate isPart, List.any_map, List.any_eq_false]
    intro part mem
    rw [Function.comp_apply, Path.Component.ofName_of_ne (proper part mem).2]
    exact Bool.false_ne_true
  have key := Path.key_intercalate isPart
  have named : (Path.ofText ("/".intercalate parts)).key.isEmpty = false := by
    rw [key, ← Bool.not_eq_true, String.isEmpty_iff]
    exact Path.intercalate_ne_empty filled isPart
  rw [check, stays, named, key]
  rfl

end ContentDirectory

/-! ## Files of an accepted directory -/

namespace Layout

/-- The path by which the repository lists a file of a language: the names of the content directory,
the language, and the names of the path below the language's directory, with single separators
between them. -/
def listedPath (directory language relative : String) : String :=
  "/".intercalate (Path.names directory ++ language :: Path.names relative)

section

variable {directory language relative : String}
  (fits : ∀ component ∈ (Path.ofText directory).components, component.escapes = false)
  (isLanguage : LanguageCode.check language = .ok ())
include isLanguage

/-- What the repository lists is its own key. -/
theorem key_listedPath :
    (Path.ofText (listedPath directory language relative)).key =
      listedPath directory language relative := by
  refine Path.key_intercalate fun part mem => ?_
  rcases List.mem_append.1 mem with inner | inner
  · exact Path.isPart_of_mem_names inner
  · rcases List.mem_cons.1 inner with rfl | inner
    · exact (LanguageCode.isName isLanguage).isPart
    · exact Path.isPart_of_mem_names inner

include fits

/-- The key of a file is the path by which the repository lists it. -/
theorem key_file (origin : String)
    (inner : ∀ component ∈ (Path.ofText relative).components, component.escapes = false) :
    ((below (.ofText directory) origin).file language relative).key =
      listedPath directory language relative := by
  have outer : (below (.ofText directory) origin).directory.components =
      (Path.names directory).map Path.Component.ofName := by
    show (Path.ofText (Path.ofText directory).key).components = _
    rw [Path.key_of_inner fits]
    exact Path.components_intercalate fun part => Path.isPart_of_mem_names
  have names : ((below (.ofText directory) origin).file language relative).components.map
      Path.Component.text = Path.names directory ++ language :: Path.names relative := by
    rw [components_file isLanguage (Path.not_escapes_ofText_iff.1 inner).1, outer]
    simp [Function.comp_def]
  rw [Path.key, names, listedPath]

end

/-- A request that has to do with what is kept about files, the last commit or the later ones, is
about an entry under one of these keys. -/
def KeptUnder (last later : List String) : Tracking.Request → Prop
  | .read category key | .write category key _ | .delete category key | .holds category key =>
    (category = History.lastCommitCategory → key ∈ last) ∧
      (category = History.commitsAfterCategory → key ∈ later)
  | _ => True

/-- A check keeps what it finds out about files under the paths by which the repository lists the
files of the language and those of the origin language. -/
theorem asks_keptUnder {directory language origin : String}
    (fits : ∀ component ∈ (Path.ofText directory).components, component.escapes = false)
    (isLanguage : LanguageCode.check language = .ok ())
    (isOrigin : LanguageCode.check origin = .ok ()) {paths : List String}
    (inner : ∀ path ∈ paths, ∀ component ∈ (Path.ofText path).components,
      component.escapes = false) :
    (Staleness.checkFiles (below (.ofText directory) origin) language paths).Asks
      (KeptUnder (paths.map (listedPath directory language))
        (paths.map (listedPath directory origin))) := by
  have known (path : String) (mem : path ∈ paths) {code : String}
      (isCode : LanguageCode.check code = .ok ()) :
      ((below (.ofText directory) origin).file code path).key ∈
        paths.map (listedPath directory code) :=
    List.mem_map.2 ⟨path, mem, (key_file fits isCode origin (inner path mem)).symm⟩
  refine (asks_checkFiles _ language paths).mono fun request consults => ?_
  cases request with
  | read category key | write category key bytes =>
    refine ⟨fun isLast => ?_, fun isLater => ?_⟩
    · obtain ⟨path, mem, rfl⟩ := consults.1 isLast
      exact known path mem isLanguage
    · obtain ⟨path, mem, rfl⟩ := consults.2 isLater
      exact known path mem isOrigin
  | delete category key | holds category key => exact consults.elim
  | isCancelled | cancel | query query => trivial

end Layout

/-- A content directory that is accepted is the names that it is made of, in their order, and is
accepted again as it is; the layout is the same with either of them. In it, the key of a file is
made of the names of the directory, the language and the names of the path. Checks keep what they
find out under these keys, and to forget a file by the path that the repository lists drops just
that. All other directories are refused: those that come by the root or go up, and those without a
name. -/
theorem keys_of_checked_files {directory language origin relative : String} {accepted : Path}
    (fits : ContentDirectory.check (.ofText directory) = .ok accepted)
    (isLanguage : LanguageCode.check language = .ok ())
    (inner : ∀ component ∈ (Path.ofText relative).components, component.escapes = false) :
    let layout := Layout.below (.ofText directory) origin
    let listed := Layout.listedPath directory language relative
    (accepted = .ofText ("/".intercalate (Path.names directory)) ∧
      accepted.components = (Path.ofText directory).components ∧
      (∀ component ∈ accepted.components, ∃ name, component = .name name) ∧
      ContentDirectory.check accepted = .ok accepted) ∧
    layout = Layout.below accepted origin ∧
    ((layout.file language relative).key = listed ∧ (Path.ofText listed).key = listed) ∧
    (LanguageCode.check origin = .ok () → ∀ paths : List String,
      (∀ path ∈ paths, ∀ component ∈ (Path.ofText path).components, component.escapes = false) →
        (Staleness.checkFiles layout language paths).Asks
          (Layout.KeptUnder (paths.map (Layout.listedPath directory language))
            (paths.map (Layout.listedPath directory origin)))) ∧
    (∀ {σ : Type} (S : Surroundings σ) (state : σ),
      Forgetting (layout.file language relative).key (S.entries state)
        (S.trace (History.forgetFile listed) state)
        (S.entries (S.after (History.forgetFile listed) state))
        (S.result (History.forgetFile listed) state)) ∧
    ∀ refused : Path, ContentDirectory.check refused = .error ⟨refused⟩ ↔
      (∃ component ∈ refused.components, component = .root ∨ component = .up) ∨
        ∀ component ∈ refused.components, ∀ name, component ≠ .name name := by
  intro layout listed
  obtain ⟨stays, filled, shape⟩ := ContentDirectory.check_ofText_eq_ok fits
  obtain ⟨relativeDirectory, noUp⟩ := Path.not_escapes_ofText_iff.1 stays
  have proper : ∀ name ∈ Path.names directory, Path.IsPart name ∧ name ≠ ".." :=
    fun name mem => ⟨Path.isPart_of_mem_names mem, fun up => noUp (up ▸ mem)⟩
  have isPart : ∀ name ∈ Path.names directory, Path.IsPart name :=
    fun name mem => (proper name mem).1
  have same : accepted.components = (Path.ofText directory).components := by
    rw [shape, Path.components_intercalate isPart, Path.components_ofText,
      if_neg relativeDirectory, List.nil_append]
  have key : (layout.file language relative).key = listed :=
    Layout.key_file stays isLanguage origin inner
  have own : (Path.ofText listed).key = listed := Layout.key_listedPath isLanguage
  refine ⟨⟨shape, same, fun component mem => ?_, ?_⟩, ?_, ⟨key, own⟩,
    fun isOrigin paths => Layout.asks_keptUnder stays isLanguage isOrigin, fun S state => ?_,
    fun refused => ContentDirectory.check_eq_error_iff⟩
  · rw [same] at mem
    cases component with
    | root | up => cases stays _ mem
    | name name => exact ⟨name, rfl⟩
  · rw [shape]
    exact ContentDirectory.check_intercalate filled proper
  · show (⟨.ofText (Path.ofText directory).key, origin⟩ : Layout) = ⟨.ofText accepted.key, origin⟩
    rw [shape, Path.key_of_inner stays, Path.key_intercalate isPart]
  · have forgets := forgetting_of_ends (S.ends_trace (History.forgetFile listed) state)
      (S.leads _ state)
    rw [own] at forgets
    rwa [key]

/-- A directory and a path with dots and too many separators in them come to the path that the
repository lists. -/
theorem keys_of_checked_files_dotted :
    ContentDirectory.check (.ofText ".//docs/./content/") = .ok (.ofText "docs/content") ∧
      ((Layout.below (.ofText ".//docs/./content/") "en").file "pt_BR" "./guide//intro.md").key =
        "docs/content/pt_BR/guide/intro.md" := by
  have fits : ContentDirectory.check (.ofText ".//docs/./content/") =
      .ok (.ofText "docs/content") := by
    decide +kernel
  obtain ⟨-, -, ⟨key, -⟩, -⟩ := @keys_of_checked_files _ "pt_BR" "en" "./guide//intro.md" _ fits
    (by decide +kernel) (by decide +kernel)
  have listed : Layout.listedPath ".//docs/./content/" "pt_BR" "./guide//intro.md" =
      "docs/content/pt_BR/guide/intro.md" := by
    decide +kernel
  exact ⟨fits, key.trans listed⟩

end LocaleWatch
