import LocaleWatch.Path
import LocaleWatch.Text.Quoted

/-!
# Where the files of a language live

The content directory of a repository holds one directory per language, and a
localized file lies at the same place below its language's directory as the origin
file does below the origin language's.

## Main results

* `ContentDirectory.check_eq_ok` — an accepted directory has only names as its
  components, and at least one.
-/

namespace LocaleWatch

open Text

/-- A path that is no content directory. -/
structure InvalidContentDirectory where
  directory : Path
  deriving DecidableEq, Repr

/-- The wording of the refusal. -/
def InvalidContentDirectory.message (error : InvalidContentDirectory) : String :=
  "invalid content directory " ++ quoteBytes error.directory.bytes ++
    ": expected a path relative to the repository root without '..'"

/-- Whether a component leads out of the directory it is taken from. -/
def Path.Component.escapes : Path.Component → Bool
  | .root | .up => true
  | .name _ => false

/-- Accept a directory that lies below the repository's root, and give it in the
form in which the repository prints it. -/
def ContentDirectory.check (directory : Path) : Except InvalidContentDirectory Path :=
  if directory.components.any Path.Component.escapes || directory.key.isEmpty then
    .error ⟨directory⟩
  else .ok (Path.ofText directory.key)

/-- Where the files of each language live. -/
structure Layout where
  /-- The directory that holds one directory per language, in the form in which the
  repository prints it. -/
  directory : Path
  origin : String
  deriving DecidableEq, Repr

namespace Layout

/-- The layout below a content directory. Every path built from it has the form in
which the repository prints it. -/
def below (directory : Path) (origin : String) : Layout :=
  ⟨Path.ofText directory.key, origin⟩

/-- The layout of a repository that says nothing else. -/
def standard : Layout := below (Path.ofText "content") "en"

instance : Inhabited Layout := ⟨standard⟩

/-- The directory of a language. -/
def languageDirectory (layout : Layout) (language : String) : Path :=
  layout.directory.join (Path.ofText language)

/-- The path of a language's file, given relative to the language's directory. -/
def file (layout : Layout) (language relative : String) : Path :=
  (layout.languageDirectory language).join (Path.ofText relative)

end Layout

theorem ContentDirectory.check_eq_ok {directory accepted : Path}
    (h : ContentDirectory.check directory = .ok accepted) :
    accepted = Path.ofText directory.key ∧ directory.key ≠ "" ∧
      ∀ component ∈ directory.components, component.escapes = false := by
  unfold ContentDirectory.check at h
  split at h
  · contradiction
  · next fine =>
    cases h
    simp only [Bool.or_eq_true, List.any_eq_true, not_or, not_exists, not_and] at fine
    refine ⟨rfl, fun empty => fine.2 (by simp [empty]), fun component mem => ?_⟩
    simpa using fine.1 component mem

end LocaleWatch
