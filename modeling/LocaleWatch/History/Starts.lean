import LocaleWatch.Json.Form

/-!
# Commits by start point

For one file, the history is asked for the commits after several start points. The
answers are kept together, one list for each start point, in the order of the start
points' names.

## Main results

* `insertEntry_sorted` — an insertion keeps the order.
* `get?_insert_self`, `get?_insert_of_ne` — it changes the answer of one start point.
-/

namespace LocaleWatch

/-- Lists of commits by the start point they come after. -/
structure CommitsByStart where
  entries : List (CommitId × List Commit)
  sorted : (entries.map (·.1.text)).Pairwise (· < ·) := by simp
  deriving DecidableEq, Repr

namespace CommitsByStart

/-- No start point. -/
def empty : CommitsByStart := ⟨[], by simp⟩

/-- The commits after a start point. -/
def get? (starts : CommitsByStart) (start : CommitId) : Option (List Commit) :=
  starts.entries.lookup start

/-- Put the commits after a start point into an ascending list. -/
def insertEntry (start : CommitId) (commits : List Commit) :
    List (CommitId × List Commit) → List (CommitId × List Commit)
  | [] => [(start, commits)]
  | (first, others) :: rest =>
    if start.text < first.text then (start, commits) :: (first, others) :: rest
    else if start.text = first.text then (start, commits) :: rest
    else (first, others) :: insertEntry start commits rest

theorem mem_insertEntry {start : CommitId} {commits : List Commit}
    {entries : List (CommitId × List Commit)} {text : String}
    (h : text ∈ (insertEntry start commits entries).map (·.1.text)) :
    text = start.text ∨ text ∈ entries.map (·.1.text) := by
  induction entries with
  | nil => simpa [insertEntry] using h
  | cons entry rest ih =>
    obtain ⟨first, others⟩ := entry
    rw [insertEntry] at h
    split at h
    · simpa using h
    · split at h
      · rcases List.mem_cons.1 h with h | h
        · exact .inl h
        · exact .inr (List.mem_cons_of_mem _ h)
      · rcases List.mem_cons.1 h with h | h
        · exact .inr (by simp [h])
        · rcases ih h with h | h
          · exact .inl h
          · exact .inr (List.mem_cons_of_mem _ h)

theorem insertEntry_sorted (start : CommitId) (commits : List Commit)
    {entries : List (CommitId × List Commit)}
    (h : (entries.map (·.1.text)).Pairwise (· < ·)) :
    ((insertEntry start commits entries).map (·.1.text)).Pairwise (· < ·) := by
  induction entries with
  | nil => simp [insertEntry]
  | cons entry rest ih =>
    obtain ⟨first, others⟩ := entry
    rw [List.map_cons] at h
    obtain ⟨below, tail⟩ := List.pairwise_cons.1 h
    rw [insertEntry]
    split
    · next lt =>
      refine List.pairwise_cons.2 ⟨fun text mem => ?_, h⟩
      rcases List.mem_cons.1 mem with rfl | mem
      · exact lt
      · exact String.lt_trans lt (below text mem)
    · next notLt =>
      split
      · next same =>
        refine List.pairwise_cons.2 ⟨fun text mem => ?_, tail⟩
        show start.text < text
        exact same ▸ below text mem
      · next ne =>
        refine List.pairwise_cons.2 ⟨fun text mem => ?_, ih tail⟩
        rcases mem_insertEntry mem with rfl | mem
        · rcases Decidable.em (first.text < start.text) with lt | nlt
          · exact lt
          · exact absurd (String.le_antisymm (String.not_lt.1 nlt) (String.not_lt.1 notLt)) ne
        · exact below text mem

/-- The lists with the commits after one start point added or replaced. -/
def insert (starts : CommitsByStart) (start : CommitId) (commits : List Commit) :
    CommitsByStart :=
  ⟨insertEntry start commits starts.entries, insertEntry_sorted start commits starts.sorted⟩

private theorem lookup_insertEntry_self (start : CommitId) (commits : List Commit)
    (entries : List (CommitId × List Commit)) :
    (insertEntry start commits entries).lookup start = some commits := by
  induction entries with
  | nil => simp [insertEntry]
  | cons entry rest ih =>
    obtain ⟨first, others⟩ := entry
    rw [insertEntry]
    split
    · simp
    · split
      · simp
      · next ne =>
        have : start ≠ first := fun h => ne (h ▸ rfl)
        rw [List.lookup_cons, beq_eq_false_iff_ne.2 this]
        exact ih

private theorem lookup_insertEntry_of_ne {start other : CommitId} (ne : other ≠ start)
    (commits : List Commit) (entries : List (CommitId × List Commit)) :
    (insertEntry start commits entries).lookup other = entries.lookup other := by
  have skip : (other == start) = false := beq_eq_false_iff_ne.2 ne
  induction entries with
  | nil => simp [insertEntry, List.lookup_cons, skip]
  | cons entry rest ih =>
    obtain ⟨first, others⟩ := entry
    rw [insertEntry]
    split
    · rw [List.lookup_cons, skip]
    · split
      · next same =>
        have same : start = first := by cases start; cases first; cases same; rfl
        subst same
        rw [List.lookup_cons, List.lookup_cons, skip]
      · rw [List.lookup_cons, List.lookup_cons, ih]

/-- The start point that was inserted has the commits that were inserted. -/
@[simp] theorem get?_insert_self (starts : CommitsByStart) (start : CommitId)
    (commits : List Commit) : (starts.insert start commits).get? start = some commits :=
  lookup_insertEntry_self start commits starts.entries

/-- Every other start point keeps its commits. -/
theorem get?_insert_of_ne (starts : CommitsByStart) {start other : CommitId}
    (ne : other ≠ start) (commits : List Commit) :
    (starts.insert start commits).get? other = starts.get? other :=
  lookup_insertEntry_of_ne ne commits starts.entries

instance : JsonForm CommitsByStart where
  toJson starts := .object (starts.entries.map fun (start, commits) =>
    (start.text, JsonForm.toJson commits))
  ofJson?
    | .object members =>
      members.foldlM (fun starts (key, value) => do
        let start ← (CommitId.parse (← key)).toOption
        return starts.insert start (← JsonForm.ofJson? value)) empty
    | _ => none

end CommitsByStart

end LocaleWatch
