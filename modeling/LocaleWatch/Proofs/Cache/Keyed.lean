import LocaleWatch.Cache.Keyed
import LocaleWatch.Proofs.Json.Faithful
import LocaleWatch.Proofs.Surroundings

/-!
# What the cache's operations keep

An entry shows a value if its bytes are read as that value. To know what a lookup gives
and which states it leaves, three things are enough: what the entries of the kept kind
show, what the computation gives where they show nothing, and that writing that down stays
within the kind.

## Main results

* `Surroundings.keeps_getUnless` — the rule of a lookup that computes what is missing.
* `Surroundings.keeps_load`, `Surroundings.keeps_put`, `Surroundings.keeps_drop` — the rules
  of the single operations.
-/

namespace LocaleWatch

namespace Entries

/-- What an entry shows when it is read as a value of a type: none if there is no entry. -/
def Shows {α : Type} [JsonForm α] (entries : Entries) (category key : String) : Option α → Prop
  | none => entries category key = none
  | some value => ∃ bytes, entries category key = some bytes ∧ JsonForm.decode? α bytes = some value

variable {α : Type} [JsonForm α] {entries : Entries} {category key : String}

/-- An entry shows one value at most. -/
theorem Shows.unique {first second : Option α} (shown : entries.Shows category key first)
    (again : entries.Shows category key second) : first = second := by
  cases first with
  | none =>
    cases second with
    | none => rfl
    | some value =>
      obtain ⟨bytes, held, -⟩ := again
      rw [shown] at held
      contradiction
  | some value =>
    obtain ⟨bytes, held, read⟩ := shown
    cases second with
    | none =>
      rw [again] at held
      contradiction
    | some other =>
      obtain ⟨same, holds, reads⟩ := again
      rw [held] at holds
      cases holds
      rw [read] at reads
      exact reads

/-- What an entry shows depends on that entry only. -/
theorem Shows.congr {other : Entries} {found : Option α} (shown : entries.Shows category key found)
    (same : other category key = entries category key) : other.Shows category key found := by
  cases found with
  | none => exact same.trans shown
  | some value =>
    obtain ⟨bytes, held, read⟩ := shown
    exact ⟨bytes, same.trans held, read⟩

/-- An entry shows what was written there. -/
theorem shows_put [FaithfulForm α] (value : α) :
    (entries.put category key (Text.bytes (JsonForm.compact value))).Shows category key
      (some value) :=
  ⟨_, put_self, JsonForm.decode_compact value⟩

/-- What is shown after a value was written was shown before, or is that value. -/
theorem Shows.put_cases [FaithfulForm α] {value : α} {other : String} {found : Option α}
    (shown : (entries.put category key (Text.bytes (JsonForm.compact value))).Shows category other
      found) :
    (other = key ∧ some value = found) ∨ entries.Shows category other found := by
  by_cases same : other = key
  · rw [same] at shown
    exact .inl ⟨same, (shows_put value).unique shown⟩
  · exact .inr (shown.congr (put_of_ne fun both => same both.2).symm)

/-- What is shown elsewhere was shown before. -/
theorem Shows.of_put {other name : String} {bytes : List UInt8} {found : Option α}
    (ne : other ≠ category) (shown : (entries.put category key bytes).Shows other name found) :
    entries.Shows other name found :=
  shown.congr (put_of_category ne).symm

end Entries

namespace Surroundings

variable {σ α : Type} {S : Surroundings σ} {kind : σ → Prop}

theorem keeps_isCancelled {ε : Type} (quiet : S.Undisturbed kind) :
    Attempt.Keeps S.handler kind (Tracking.isCancelled : Attempt Tracking ε Bool) fun _ => True :=
  Attempt.Triple.ofProgram (fun _ holds => holds) fun _ holds => ⟨quiet rfl holds, trivial⟩

/-- What is read is what the entry of a state of the kept kind shows. -/
theorem keeps_load [JsonForm α] (quiet : S.Undisturbed kind) (category key : String) :
    Attempt.Keeps S.handler kind (Cache.load α category key) fun found =>
      ∃ state, kind state ∧ (S.entries state).Shows category key found := by
  have read : Attempt.Keeps S.handler kind (Tracking.read category key) fun found =>
      ∃ state, kind state ∧ S.entries state category key = found := by
    refine fun state holds => ⟨holds, ?_⟩
    have still : kind (S.handler (.read category key) state).2 := quiet rfl holds
    cases answer : (S.handler (.read category key) state).1 with
    | ok found => exact ⟨still, state, holds, S.entry_of_read answer⟩
    | error error => exact still
  apply (keeps_isCancelled quiet).bind
  intro cancelled _
  cases cancelled with
  | true => exact .throw
  | false =>
    apply read.bind
    intro found known
    cases found with
    | none => exact .pure known
    | some bytes =>
      obtain ⟨state, holds, held⟩ := known
      cases decoded : JsonForm.decode? α bytes with
      | none =>
        simp only [decoded]
        exact .throw
      | some value =>
        simp only [decoded]
        exact .pure ⟨state, holds, bytes, held, decoded⟩

/-- A write that stays within the kind. -/
theorem keeps_put [JsonForm α] (quiet : S.Undisturbed kind) {category key : String} {value : α}
    (kept : ∀ {state}, kind state →
      kind (S.next (.write category key (Text.bytes (JsonForm.compact value))) state)) :
    Attempt.Keeps S.handler kind (Cache.put category key value) fun _ => True := by
  apply (keeps_isCancelled quiet).bind
  intro cancelled _
  cases cancelled with
  | true => exact .throw
  | false =>
    refine fun state holds => ⟨holds, ?_⟩
    have still := kept holds
    unfold next at still
    cases answer :
      (S.handler (.write category key (Text.bytes (JsonForm.compact value))) state).1 with
    | ok done => exact ⟨still, trivial⟩
    | error error => exact still

/-- A removal that stays within the kind. -/
theorem keeps_drop {category key : String}
    (kept : ∀ {state}, kind state → kind (S.next (.delete category key) state)) :
    Attempt.Keeps S.handler kind (Cache.drop category key) fun _ => True := by
  refine fun state holds => ⟨holds, ?_⟩
  have still := kept holds
  unfold next at still
  cases answer : (S.handler (.delete category key) state).1 with
  | ok done => exact ⟨still, trivial⟩
  | error error => exact still

/-- After a removal that was carried out, the entry is gone. -/
theorem triple_drop {category key : String} (property property' : Entries → Prop)
    (kept : ∀ {state}, kind state → kind (S.next (.delete category key) state))
    (gone : ∀ entries, property entries → property' (entries.remove category key)) :
    Attempt.Triple S.handler kind (fun state => kind state ∧ property (S.entries state))
      (Cache.drop category key) fun _ state => kind state ∧ property' (S.entries state) := by
  rintro state ⟨holds, before⟩
  refine ⟨holds, ?_⟩
  have still := kept holds
  unfold next at still
  cases answer : (S.handler (.delete category key) state).1 with
  | ok done =>
    refine ⟨still, ?_⟩
    rw [S.entries_delete answer]
    exact gone _ before
  | error error => exact still

/-- A lookup that computes what is missing. What is shown is `right`; where nothing valid is
shown, the computation gives a value that is `right` and may be written down. -/
theorem keeps_getUnless [JsonForm α] (quiet : S.Undisturbed kind) {isInvalid : α → Bool}
    {category key : String} {compute : History α} {right computed : α → Prop}
    (shown : ∀ {state value}, kind state → (S.entries state).Shows category key (some value) →
      isInvalid value = false → right value)
    (missing : (∃ state found, kind state ∧ (S.entries state).Shows category key found ∧
        ∀ value, found = some value → isInvalid value = true) →
      Attempt.Keeps S.handler kind compute fun value => computed value ∧
        ∀ {state}, kind state →
          kind (S.next (.write category key (Text.bytes (JsonForm.compact value))) state))
    (fits : ∀ value, computed value → right value) :
    Attempt.Keeps S.handler kind (Cache.getUnless isInvalid category key compute) right := by
  have anew (unknown : ∃ state found, kind state ∧ (S.entries state).Shows category key found ∧
        ∀ value, found = some value → isInvalid value = true) :
      Attempt.Keeps S.handler kind (do
        let value ← compute
        Attempt.mapError HistoryError.cache (Cache.put category key value)
        return value) right := by
    refine (missing unknown).bind fun value ⟨found, kept⟩ => ?_
    have put : Attempt.Keeps S.handler kind (Cache.put category key value) fun _ => True :=
      keeps_put quiet fun holds => kept holds
    exact put.mapError.bind fun _ _ => .pure (fits value found)
  apply (keeps_load quiet category key).mapError.bind
  intro found known
  obtain ⟨state, holds, shows⟩ := known
  cases found with
  | none => exact anew ⟨state, none, holds, shows, nofun⟩
  | some value =>
    cases invalid : isInvalid value with
    | false =>
      simp only [invalid]
      exact .pure (shown holds shows invalid)
    | true =>
      simp only [invalid]
      refine anew ⟨state, some value, holds, shows, ?_⟩
      rintro other same
      cases same
      exact invalid

/-- A lookup of an entry that is never invalid. -/
theorem keeps_get [JsonForm α] (quiet : S.Undisturbed kind)
    {category key : String} {compute : History α} {right computed : α → Prop}
    (shown : ∀ {state value}, kind state → (S.entries state).Shows category key (some value) →
      right value)
    (missing : (∃ state, kind state ∧ S.entries state category key = none) →
      Attempt.Keeps S.handler kind compute fun value => computed value ∧
        ∀ {state}, kind state →
          kind (S.next (.write category key (Text.bytes (JsonForm.compact value))) state))
    (fits : ∀ value, computed value → right value) :
    Attempt.Keeps S.handler kind (Cache.get category key compute) right := by
  refine keeps_getUnless quiet (fun holds shows _ => shown holds shows) ?_ fits
  rintro ⟨state, found, holds, shows, none⟩
  cases found with
  | none => exact missing ⟨state, holds, shows⟩
  | some value => cases none value rfl

end Surroundings

end LocaleWatch
