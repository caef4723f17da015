/-!
# Cutting text at a separator

Program output is a sequence of lines, or of entries that end in a fixed
character. `split` cuts at every separator, `cut?` at the first, and `lines` reads
a text as lines: a line ends with a line feed, one carriage return before it
belongs to the end, and a last line without an end counts unless it is empty.

## Main results

* `join_split` — joining the pieces with the separator gives the text back.
* `not_mem_of_mem_split` — no piece holds the separator.
* `cut?_eq_some_iff` — a cut is at the first separator.
-/

namespace LocaleWatch.Text

/-- The pieces of `text` between the separators; one more than there are
separators. -/
def split (separator : Char) : List Char → List (List Char)
  | [] => [[]]
  | c :: rest =>
    if c = separator then [] :: split separator rest
    else
      match split separator rest with
      | [] => [[c]]
      | piece :: pieces => (c :: piece) :: pieces

/-- What stands before and after the first separator. -/
def cut? (separator : Char) : List Char → Option (List Char × List Char)
  | [] => none
  | c :: rest =>
    if c = separator then some ([], rest)
    else (cut? separator rest).map fun (before, after) => (c :: before, after)

/-- The line without a carriage return at its end. -/
def dropReturn (line : List Char) : List Char :=
  if line.getLast? = some '\r' then line.dropLast else line

/-- The lines of a text. -/
def lines (text : List Char) : List (List Char) :=
  let pieces := split '\n' text
  let last := pieces.getLastD []
  pieces.dropLast.map dropReturn ++ (if last.isEmpty then [] else [last])

/-- The lines of a text that are not empty. -/
def filledLines (text : String) : List String :=
  ((lines text.toList).filter fun line => !line.isEmpty).map String.ofList

/-- The entries of a text in which every entry ends with the NUL character. -/
def entries (text : String) : List String :=
  ((split '\x00' text.toList).filter fun entry => !entry.isEmpty).map String.ofList

/-- Whether two full stops follow one another. -/
def hasDoubleDot : List Char → Bool
  | '.' :: '.' :: _ => true
  | _ :: rest => hasDoubleDot rest
  | [] => false

/-! ## Laws -/

theorem split_ne_nil (separator : Char) (text : List Char) : split separator text ≠ [] := by
  cases text with
  | nil => simp [split]
  | cons c rest =>
    rw [split]
    split
    · simp
    · split <;> simp

/-- Joining the pieces with the separator gives the text back. -/
theorem join_split (separator : Char) (text : List Char) :
    [separator].intercalate (split separator text) = text := by
  induction text with
  | nil => rfl
  | cons c rest ih =>
    rw [split]
    cases pieces : split separator rest with
    | nil => exact absurd pieces (split_ne_nil separator rest)
    | cons piece more =>
      rw [pieces] at ih
      split
      · next h => subst h; simp [List.intercalate] at ih ⊢; exact ih
      · cases more <;> simp_all [List.intercalate]

/-- No piece holds the separator. -/
theorem not_mem_of_mem_split {separator : Char} {text piece : List Char}
    (h : piece ∈ split separator text) : separator ∉ piece := by
  induction text generalizing piece with
  | nil => simp [split] at h; simp [h]
  | cons c rest ih =>
    rw [split] at h
    split at h
    · rcases List.mem_cons.1 h with rfl | h
      · simp
      · exact ih h
    · next hc =>
      cases pieces : split separator rest with
      | nil => exact absurd pieces (split_ne_nil separator rest)
      | cons first more =>
        rw [pieces] at h
        rcases List.mem_cons.1 h with rfl | h
        · have := ih (pieces ▸ List.mem_cons_self)
          simp only [List.mem_cons, not_or]
          exact ⟨fun h => hc h.symm, this⟩
        · exact ih (pieces ▸ List.mem_cons_of_mem _ h)

/-- A cut is at the first separator. -/
theorem cut?_eq_some_iff {separator : Char} {text before after : List Char} :
    cut? separator text = some (before, after) ↔
      text = before ++ separator :: after ∧ separator ∉ before := by
  induction text generalizing before with
  | nil => simp [cut?]
  | cons c rest ih =>
    rw [cut?]
    split
    · next h =>
      subst h
      cases before with
      | nil => simp
      | cons d before => simp; rintro rfl; simp
    · next h =>
      cases before with
      | nil => simp [h, Option.map_eq_some_iff]
      | cons d before =>
        simp only [Option.map_eq_some_iff, Prod.exists, Prod.mk.injEq, List.cons.injEq,
          List.cons_append, List.mem_cons, not_or]
        constructor
        · rintro ⟨before', after', found, ⟨rfl, rfl⟩, rfl⟩
          obtain ⟨rfl, fresh⟩ := ih.1 found
          exact ⟨⟨rfl, rfl⟩, fun e => h e.symm, fresh⟩
        · rintro ⟨⟨rfl, rfl⟩, -, fresh⟩
          exact ⟨before, after, ih.2 ⟨rfl, fresh⟩, ⟨rfl, rfl⟩, rfl⟩

end LocaleWatch.Text
