/-!
# Sorted texts

Strings are ordered by their characters' code points, which is the order of their
UTF-8 forms. A set of strings is kept as the strictly ascending list of its members.

## Main results

* `mem_sortedDistinct` — sorting loses nothing and adds nothing.
* `sortedDistinct_pairwise` — the result is strictly ascending.
-/

namespace LocaleWatch.Text

/-- Put a string into a strictly ascending list. -/
def insertDistinct (text : String) : List String → List String
  | [] => [text]
  | first :: rest =>
    if text < first then text :: first :: rest
    else if text = first then first :: rest
    else first :: insertDistinct text rest

/-- The strictly ascending list of the members of a list. -/
def sortedDistinct (texts : List String) : List String :=
  texts.foldr insertDistinct []

/-- The members of a list in ascending order, each as often as it occurs. -/
def ascending (texts : List String) : List String :=
  texts.mergeSort fun a b => decide (a ≤ b)

theorem mem_insertDistinct {text other : String} {texts : List String} :
    other ∈ insertDistinct text texts ↔ other = text ∨ other ∈ texts := by
  induction texts with
  | nil => simp [insertDistinct]
  | cons first rest ih =>
    rw [insertDistinct]
    split
    · simp
    · split
      · next h => subst h; simp
      · simp only [List.mem_cons, ih]
        constructor
        · rintro (h | h | h) <;> simp [h]
        · rintro (h | h | h) <;> simp [h]

/-- Sorting loses nothing and adds nothing. -/
theorem mem_sortedDistinct {text : String} {texts : List String} :
    text ∈ sortedDistinct texts ↔ text ∈ texts := by
  induction texts with
  | nil => simp [sortedDistinct]
  | cons first rest ih =>
    rw [sortedDistinct, List.foldr_cons, mem_insertDistinct, ← sortedDistinct, ih, List.mem_cons]

theorem insertDistinct_pairwise {text : String} {texts : List String}
    (h : texts.Pairwise (· < ·)) : (insertDistinct text texts).Pairwise (· < ·) := by
  induction texts with
  | nil => simp [insertDistinct]
  | cons first rest ih =>
    obtain ⟨below, tail⟩ := List.pairwise_cons.1 h
    rw [insertDistinct]
    split
    · next lt =>
      refine List.pairwise_cons.2 ⟨fun other mem => ?_, h⟩
      rcases List.mem_cons.1 mem with rfl | mem
      · exact lt
      · exact String.lt_trans lt (below other mem)
    · next notLt =>
      split
      · exact h
      · next ne =>
        refine List.pairwise_cons.2 ⟨fun other mem => ?_, ih tail⟩
        rcases mem_insertDistinct.1 mem with rfl | mem
        · rcases String.le_total first other with le | le
          · rcases Decidable.em (first < other) with lt | nlt
            · exact lt
            · exact absurd (String.le_antisymm (String.not_lt.1 nlt) le) ne
          · rcases Decidable.em (other < first) with lt | nlt
            · exact absurd lt notLt
            · exact absurd (String.le_antisymm le (String.not_lt.1 nlt)) ne
        · exact below other mem

/-- The result is strictly ascending. -/
theorem sortedDistinct_pairwise (texts : List String) :
    (sortedDistinct texts).Pairwise (· < ·) := by
  induction texts with
  | nil => simp [sortedDistinct]
  | cons first rest ih => exact insertDistinct_pairwise ih

end LocaleWatch.Text
