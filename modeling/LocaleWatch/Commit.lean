import LocaleWatch.Text.Blank
import LocaleWatch.Text.Quoted
import LocaleWatch.Text.Split

/-!
# Commits

A commit is known by a name that can stand as an argument of a version-control
command: not empty, no blanks or controls, no leading hyphen (an option) and no
`..` (a range of commits).

## Main results

* `CommitId.parse_eq_ok_iff` — parsing accepts exactly the well-formed names and
  keeps them as they are.
* `Commit.label` — a commit is shown by the first twelve bytes of its name and
  its subject.
-/

namespace LocaleWatch

open Text

/-- Why a text names no commit. -/
inductive CommitId.Flaw where
  | empty
  | start (c : Char)
  | range
  | character (c : Char)
  deriving DecidableEq, Repr

/-- The wording of a flaw. -/
def CommitId.Flaw.message : CommitId.Flaw → String
  | .empty => "value cannot be empty"
  | .start c => "value cannot start with '" ++ String.singleton c ++ "'"
  | .range => "value cannot contain '..'"
  | .character c => "invalid character in value: " ++ quoteChar c

/-- The first flaw of a text as a commit name. -/
def CommitId.flaw? (text : String) : Option CommitId.Flaw :=
  match text.toList with
  | [] => some .empty
  | '-' :: _ => some (.start '-')
  | characters =>
    if hasDoubleDot characters then some .range
    else (characters.find? fun c => isBlank c || isControl c).map .character

/-- The name of a commit: a full or short identifier, a branch or a tag. -/
structure CommitId where
  text : String
  wellFormed : CommitId.flaw? text = none
  deriving DecidableEq

instance : Repr CommitId := ⟨fun id _ => repr id.text⟩

/-- The commit that a text names. -/
def CommitId.parse (text : String) : Except CommitId.Flaw CommitId :=
  match h : CommitId.flaw? text with
  | some flaw => .error flaw
  | none => .ok ⟨text, h⟩

/-- Parsing accepts exactly the well-formed names and keeps them as they are. -/
theorem CommitId.parse_eq_ok_iff {text : String} {id : CommitId} :
    CommitId.parse text = .ok id ↔ id.text = text := by
  unfold CommitId.parse
  constructor
  · intro h
    split at h
    · contradiction
    · cases h; rfl
  · rintro rfl
    split
    · next h => rw [id.wellFormed] at h; contradiction
    · rfl

/-- A text is a commit name exactly if it is not empty, starts with no hyphen and
holds no `..`, no blank and no control character. -/
theorem CommitId.flaw?_eq_none_iff {text : String} :
    CommitId.flaw? text = none ↔
      text ≠ "" ∧ text.toList.head? ≠ some '-' ∧ hasDoubleDot text.toList = false ∧
        ∀ c ∈ text.toList, isBlank c = false ∧ isControl c = false := by
  rw [Ne, ← String.toList_eq_nil_iff, CommitId.flaw?]
  cases text.toList with
  | nil => simp
  | cons c rest =>
    by_cases hc : c = '-'
    · subst hc; simp
    · have : (match c :: rest with
          | [] => some CommitId.Flaw.empty
          | '-' :: _ => some (.start '-')
          | characters =>
            if hasDoubleDot characters then some .range
            else (characters.find? fun c => isBlank c || isControl c).map .character) =
          if hasDoubleDot (c :: rest) then some .range
          else ((c :: rest).find? fun c => isBlank c || isControl c).map .character := by
        split
        · contradiction
        · next h => cases h; exact absurd rfl hc
        · rfl
      rw [this]
      split
      · simp_all
      · simp_all [-List.mem_cons]

/-- A name parses to itself. -/
@[simp] theorem CommitId.parse_text (id : CommitId) : CommitId.parse id.text = .ok id :=
  CommitId.parse_eq_ok_iff.2 rfl

/-- One commit as the history reports it. -/
structure Commit where
  id : CommitId
  timestamp : String
  subject : String
  deriving DecidableEq, Repr

/-- Whether two records are of one commit: their names are equal, whatever form
their timestamps have. -/
def Commit.isSame (first second : Commit) : Bool :=
  first.id = second.id

/-- The leading characters of a text that take up exactly `size` bytes. -/
def takeBytes? : (size : Nat) → List Char → Option (List Char)
  | 0, _ => some []
  | _ + 1, [] => none
  | size + 1, c :: rest =>
    if c.utf8Size ≤ size + 1 then (takeBytes? (size + 1 - c.utf8Size) rest).map (c :: ·) else none

/-- The first twelve bytes of a name, or the whole name if it is shorter or the
cut would fall inside a character. -/
def CommitId.short (id : CommitId) : String :=
  match takeBytes? 12 id.text.toList with
  | some characters => String.ofList characters
  | none => id.text

/-- How a commit is shown: its short name and its subject. -/
def Commit.label (commit : Commit) : String :=
  commit.id.short ++ " " ++ commit.subject

end LocaleWatch
