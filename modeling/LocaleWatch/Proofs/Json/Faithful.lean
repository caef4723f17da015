import LocaleWatch.History.Starts
import LocaleWatch.Proofs.Json.Reading
import LocaleWatch.Refresh.State

/-!
# Faithful forms

A type's JSON form is faithful if each value is found again in its document. Then what is
written to an entry is what a later read gives, with every field equal.

## Main results

* `JsonForm.decode_compact`, `JsonForm.decode_indented` — the bytes of a value in either layout
  are read as the value.
* The forms of commits, lists, optional values, commits by start point and refresh states
  are faithful.
-/

namespace LocaleWatch

/-- A type whose values are found again in their documents. -/
class FaithfulForm (α : Type) [JsonForm α] : Prop where
  ofJson_toJson : ∀ value : α, JsonForm.ofJson? (JsonForm.toJson value).reading = some value

namespace JsonForm

variable {α : Type} [JsonForm α]

/-- The bytes of a value in compact layout are read as the value. -/
theorem decode_compact [FaithfulForm α] (value : α) :
    decode? α (Text.bytes (compact value)) = some value := by
  rw [decode?, compact, JsonValue.parse_compact, Option.bind_some, FaithfulForm.ofJson_toJson]

/-- The bytes of a value in indented layout are read as the value. -/
theorem decode_indented [FaithfulForm α] (value : α) :
    decode? α (Text.bytes (indented value)) = some value := by
  rw [decode?, indented, JsonValue.parse_indented, Option.bind_some, FaithfulForm.ofJson_toJson]

instance : FaithfulForm String where
  ofJson_toJson _ := rfl

instance [FaithfulForm α] : FaithfulForm (List α) where
  ofJson_toJson values := by
    have each (items : List α) :
        (items.map fun item => (toJson item).reading).mapM ofJson? = some items := by
      induction items with
      | nil => rfl
      | cons item more ih => simp [List.mapM_cons, FaithfulForm.ofJson_toJson, ih]
    simpa [toJson, ofJson?, JsonValue.reading, JsonValue.readings_eq_map, List.map_map,
      Function.comp_def] using each values

/-- An optional value is found again if no value's document looks like none. -/
theorem faithful_option [FaithfulForm α]
    (notNull : ∀ value : α, (toJson value).reading ≠ .null) : FaithfulForm (Option α) where
  ofJson_toJson
    | none => rfl
    | some value => by
      have again := FaithfulForm.ofJson_toJson value
      have different := notNull value
      simp only [toJson, ofJson?, again, Option.map_some]

instance : FaithfulForm CommitId where
  ofJson_toJson id := by
    simp [toJson, ofJson?, JsonValue.reading, CommitId.parse_text, Except.toOption]

/-! ## Records -/

/-- An object with fields of different names gives each field under its name. -/
theorem fields?_object (members : List (String × JsonReading))
    (different : (members.map (·.1)).Nodup) :
    fields? (members.map (·.1)) (.object (members.map fun member => (some member.1, member.2))) =
      some (members.map fun member => some member.2) := by
  have one (members : List (String × JsonReading)) (different : (members.map (·.1)).Nodup)
      {member : String × JsonReading} (mem : member ∈ members) :
      (members.map fun member => (some member.1, member.2)).filter (·.1 = some member.1) =
        [(some member.1, member.2)] := by
    induction members with
    | nil => contradiction
    | cons first more ih =>
      obtain ⟨absent, rest⟩ := List.nodup_cons.1 different
      rcases List.mem_cons.1 mem with rfl | mem
      · have none : (more.map fun member => (some member.1, member.2)).filter
            (·.1 = some member.1) = [] := by
          rw [List.filter_eq_nil_iff]
          intro other otherMem
          obtain ⟨inner, innerMem, rfl⟩ := List.mem_map.1 otherMem
          simp only [decide_eq_true_eq, Option.some.injEq]
          intro same
          exact absent (List.mem_map.2 ⟨inner, innerMem, same⟩)
        simp [none]
      · have ne : first.1 ≠ member.1 := by
          intro same
          exact absent (List.mem_map.2 ⟨member, mem, same.symm⟩)
        simpa [ne] using ih rest mem
  have known : (members.map fun member => (some member.1, member.2)).all (·.1.isSome) = true := by
    simp
  have each (read : String → Option (Option JsonReading)) (part : List (String × JsonReading))
      (reads : ∀ member ∈ part, read member.1 = some (some member.2)) :
      (part.map (·.1)).mapM read = some (part.map fun member => some member.2) := by
    induction part with
    | nil => rfl
    | cons member more ih =>
      simp only [List.map_cons, List.mapM_cons, reads member List.mem_cons_self,
        ih fun other mem => reads other (List.mem_cons_of_mem _ mem)]
      rfl
  rw [fields?, if_pos known]
  apply each
  intro member mem
  simp only [one members different mem]

instance : FaithfulForm Commit where
  ofJson_toJson commit := by
    have read : fields? ["id", "timestamp", "subject"] (toJson commit).reading = _ :=
      fields?_object [("id", (toJson commit.id).reading),
      ("timestamp", (toJson commit.timestamp).reading),
      ("subject", (toJson commit.subject).reading)] (by simp)
    have id := FaithfulForm.ofJson_toJson commit.id
    have timestamp := FaithfulForm.ofJson_toJson commit.timestamp
    have subject := FaithfulForm.ofJson_toJson commit.subject
    show (fields? ["id", "timestamp", "subject"] (toJson commit).reading >>= _) = _
    rw [read]
    simp [required?, id, timestamp, subject]

instance : FaithfulForm (Option Commit) :=
  faithful_option fun commit => by simp [toJson, JsonValue.reading]

instance : FaithfulForm (Option CommitId) :=
  faithful_option fun id => by simp [toJson, JsonValue.reading]

instance : FaithfulForm RefreshState where
  ofJson_toJson state := by
    have read : fields? ["last_head", "refreshed_files"] (toJson state).reading = _ :=
      fields?_object [("last_head", (toJson state.head).reading),
      ("refreshed_files", (toJson state.files).reading)] (by simp)
    have head := FaithfulForm.ofJson_toJson state.head
    have files := FaithfulForm.ofJson_toJson state.files
    show (fields? ["last_head", "refreshed_files"] (toJson state).reading >>= _) = _
    rw [read]
    simp [required?, optional?, head, files]

end JsonForm

/-! ## Commits by start point -/

namespace CommitsByStart

/-- A start point after all others is put at the end. -/
theorem insertEntry_last {start : CommitId} (commits : List Commit)
    {entries : List (CommitId × List Commit)}
    (after : ∀ text ∈ entries.map (·.1.text), text < start.text) :
    insertEntry start commits entries = entries ++ [(start, commits)] := by
  induction entries with
  | nil => rfl
  | cons entry rest ih =>
    obtain ⟨first, others⟩ := entry
    have lt : first.text < start.text := after first.text (by simp)
    have notLt : ¬ start.text < first.text := fun gt => String.lt_irrefl _ (String.lt_trans lt gt)
    have ne : start.text ≠ first.text := fun same => String.lt_irrefl _ (same ▸ lt)
    rw [insertEntry, if_neg notLt, if_neg ne, ih fun text mem => after text (by simp [mem])]
    rfl

/-- Start points that ascend are read back in their order. -/
theorem foldlM_insert (later : List (CommitId × List Commit)) (starts : CommitsByStart)
    (sorted : ((starts.entries ++ later).map (·.1.text)).Pairwise (· < ·)) :
    (later.map fun (start, commits) => (some start.text, (JsonForm.toJson commits).reading)).foldlM
      (fun (starts : CommitsByStart) (key, value) => do
        let start ← (CommitId.parse (← key)).toOption
        return starts.insert start (← JsonForm.ofJson? value)) starts =
      some ⟨starts.entries ++ later, sorted⟩ := by
  induction later generalizing starts with
  | nil => simp
  | cons entry later ih =>
    obtain ⟨start, commits⟩ := entry
    have last : (starts.insert start commits).entries = starts.entries ++ [(start, commits)] := by
      apply insertEntry_last commits
      intro text mem
      rw [List.map_append, List.pairwise_append] at sorted
      exact sorted.2.2 text mem start.text (by simp)
    have rest := ih (starts.insert start commits) (by simpa [last] using sorted)
    simp only [last, List.append_assoc, List.singleton_append] at rest
    have parse : (CommitId.parse start.text).toOption = some start := by
      rw [CommitId.parse_text]
      rfl
    rw [List.map_cons, List.foldlM_cons]
    simp only [Option.bind_eq_bind, Option.bind_some, parse, FaithfulForm.ofJson_toJson]
    exact rest

end CommitsByStart

instance : FaithfulForm CommitsByStart where
  ofJson_toJson starts := by
    have read := CommitsByStart.foldlM_insert starts.entries .empty
      (by simpa [CommitsByStart.empty] using starts.sorted)
    simpa [JsonForm.toJson, JsonForm.ofJson?, JsonValue.reading, JsonValue.memberReadings_eq_map,
      List.map_map, Function.comp_def, CommitsByStart.empty] using read

end LocaleWatch
