import LocaleWatch.Proofs.Files.Keys
import LocaleWatch.Proofs.History.StartPoints

/-!
# Paths that share entries

What is kept about a file is kept under the key of its path. Paths with one key share these entries:
what was told about one of them is given for the other, and the repository is not asked. Paths with
different keys leave each other's entries alone.

So the question which paths share entries is the question which have one key. They are those whose
components are shown alike, and that is what it should be for paths that are text. A name that is no
text, however, is shown like every other name with U+FFFD in the same places, and then one file is
given the history of another.

## Main results

* `Surroundings.serves_of_key_eq` — paths with one key are given one answer.
* `Surroundings.sparesFile_of_key_ne` — paths with different keys leave each other's entries alone.
* `entries_shared_iff` — which paths share entries.
-/

namespace LocaleWatch

open Attempt History

variable {α : Type} {events : List (Event Tracking)} {entries last : Entries}

/-! ## Answers from what is kept -/

/-- A value is given from what is kept: the repository is not asked, and only a refusal can keep it
from being given. -/
def FromKept (events : List (Event Tracking)) (value : α) (result : Except HistoryError α) : Prop :=
  (∀ query told, .query query told ∉ events) ∧
    (result = .ok value ∨ ∃ error, result = .error error ∧ Refuses events)

section

variable [JsonForm α] {category key : String} {value : α}

/-- What is found is what the entry shows. -/
private theorem found_eq (shown : entries.Shows category key (some value)) {found : Option α}
    (loading : Loading category key ((entries category key).map (JsonForm.decode? α)) events
      (.ok found)) : found = some value :=
  (Entries.shows_iff.2 (decodes_iff.2 loading.reading_eq)).unique shown

/-- A lookup of an entry that shows a valid value gives it. -/
theorem Lookup.fromKept {isInvalid : α → Bool} {compute : History α}
    {result : Except HistoryError α}
    (lookup : Lookup isInvalid category key compute
      ((entries category key).map (JsonForm.decode? α)) events result)
    (shown : entries.Shows category key (some value)) (valid : isInvalid value = false) :
    FromKept events value result := by
  have notComputed {found : Option α} {opening : List (Event Tracking)}
      (loading : Loading category key ((entries category key).map (JsonForm.decode? α)) opening
        (.ok found)) : ¬ ∀ value, found = some value → isInvalid value = true := by
    intro invalid
    exact nomatch valid.symm.trans (invalid value (found_eq shown loading))
  cases lookup with
  | unread loading =>
    exact ⟨fun _ _ => loading.query_not_mem,
      .inr ⟨_, rfl, loading.refuses shown.readable⟩⟩
  | kept loading isValid =>
    cases found_eq shown loading
    exact ⟨fun _ _ => loading.query_not_mem, .inl rfl⟩
  | uncomputed loading invalid computes => exact absurd invalid (notComputed loading)
  | unwritten loading invalid computes writing => exact absurd invalid (notComputed loading)
  | computed loading invalid computes writing => exact absurd invalid (notComputed loading)

end

namespace Seeking

variable {path : Path} {start : CommitId} {commits : List Commit}

/-- A question about a start point that the entry shows is answered from it. -/
theorem fromKept {starts : CommitsByStart} {result : Except HistoryError (List Commit)}
    (seeking : Seeking path start
      ((entries commitsAfterCategory path.key).map (JsonForm.decode? CommitsByStart)) events result)
    (leads : entries.Leads events last)
    (shown : entries.Shows commitsAfterCategory path.key (some starts))
    (known : starts.get? start = some commits) : FromKept events commits result := by
  have notAsked (query : Query) (told : Except RepositoryError query.Result) :
      .query query told ∉ events := by
    intro mem
    obtain ⟨-, kept, read, unknown⟩ := seeking.of_query_mem mem
    have isStarts : kept = some starts :=
      (Entries.shows_iff.2 (decodes_iff.2 read)).unique shown
    rw [isStarts, Option.getD_some, known] at unknown
    contradiction
  refine ⟨notAsked, ?_⟩
  cases result with
  | error error => exact .inr ⟨error, rfl, seeking.refuses shown.readable⟩
  | ok given =>
    obtain ⟨-, kept, isShown, ⟨same, -⟩ | ⟨-, told, -⟩⟩ := seeking.among leads
    · rw [isShown.unique shown, Option.getD_some, known] at same
      cases same
      exact .inl rfl
    · exact absurd told (notAsked _ _)

/-- What is given is kept then. -/
theorem leaves {reading : Option (Option CommitsByStart)}
    (seeking : Seeking path start reading events (.ok commits))
    (leads : entries.Leads events last) :
    ∃ starts : CommitsByStart, last.Shows commitsAfterCategory path.key (some starts) ∧
      starts.get? start = some commits := by
  obtain ⟨-, kept, shown, ⟨known, rfl⟩ | ⟨-, -, rfl⟩⟩ := seeking.among leads
  · cases kept with
    | none => cases known
    | some starts => exact ⟨starts, shown, known⟩
  · exact ⟨_, Entries.shows_put _, CommitsByStart.get?_insert_self _ _ _⟩

end Seeking

/-! ## Questions about two paths -/

namespace Surroundings

variable {σ : Type} {S : Surroundings σ} {first second : Path}

/-- What is told about one path is given for another one from then on. -/
structure Serves (S : Surroundings σ) (first second : Path) (state : σ) : Prop where
  last : ∀ value, S.result (lastCommit first) state = .ok value →
    FromKept (S.trace (lastCommit second) (S.after (lastCommit first) state)) value
      (S.result (lastCommit second) (S.after (lastCommit first) state))
  commitsAfter : ∀ start commits, S.result (History.commitsAfter first start) state = .ok commits →
    FromKept
      (S.trace (History.commitsAfter second start)
        (S.after (History.commitsAfter first start) state))
      commits
      (S.result (History.commitsAfter second start)
        (S.after (History.commitsAfter first start) state))

/-- Questions about one path leave what is kept about another one as it was. -/
structure SparesFile (S : Surroundings σ) (first second : Path) (state : σ) : Prop where
  last : ∀ category ∈ [lastCommitCategory, commitsAfterCategory],
    S.entries (S.after (lastCommit first) state) category second.key =
      S.entries state category second.key
  commitsAfter : ∀ start, ∀ category ∈ [lastCommitCategory, commitsAfterCategory],
    S.entries (S.after (History.commitsAfter first start) state) category second.key =
      S.entries state category second.key

/-- Paths with one key are given one answer. -/
theorem serves_of_key_eq (same : first.key = second.key) (state : σ) :
    S.Serves first second state where
  last value told := by
    have shown : (S.entries (S.after (lastCommit first) state)).Shows lastCommitCategory second.key
        (some value) :=
      same ▸ shows_getUnless told
    obtain ⟨reading, lookup⟩ := ends_getUnless (S.ends_trace (lastCommit second)
      (S.after (lastCommit first) state))
    exact (lookup.among (asks_query _ rfl) (S.leads _ _)).1.fromKept shown rfl
  commitsAfter start commits told := by
    have ends := S.ends_trace (History.commitsAfter first start) state
    rw [told] at ends
    obtain ⟨_, seeking⟩ := ends_commitsAfter ends
    obtain ⟨starts, shown, known⟩ := seeking.leaves (S.leads _ _)
    rw [same] at shown
    obtain ⟨_, again⟩ := ends_commitsAfter (S.ends_trace (History.commitsAfter second start)
      (S.after (History.commitsAfter first start) state))
    exact (again.among (S.leads _ _)).1.fromKept (S.leads _ _) shown known

/-- Paths with different keys leave each other's entries alone. -/
theorem sparesFile_of_key_ne (differ : first.key ≠ second.key) (state : σ) :
    S.SparesFile first second state where
  last category _ := by
    have asks : (lastCommit first).Asks (Tracking.Request.SparesEntry category second.key) :=
      asks_lastCommit trivial ⟨trivial, fun _ same => differ same.2, trivial⟩
    exact Entries.leads_entrySpared (asks.ends (S.ends_trace _ state)) (S.leads _ _)
  commitsAfter start category _ := by
    have asks : (History.commitsAfter first start).Asks
        (Tracking.Request.SparesEntry category second.key) :=
      asks_commitsAfter trivial ⟨trivial, fun _ same => differ same.2, trivial⟩
    exact Entries.leads_entrySpared (asks.ends (S.ends_trace _ state)) (S.leads _ _)

end Surroundings

/-- Paths share entries exactly if their components are shown alike: then what is told about one is
given for the other, and else neither touches what is kept about the other. Between paths that are
text, and wherever a key shows no U+FFFD, that is to have the same components. A key is its own
key. -/
theorem entries_shared_iff (first second : Path) :
    (first.key = second.key ↔
        List.Forall₂ Path.Component.Alike first.components second.components) ∧
      ((first.text? ≠ none ∧ second.text? ≠ none) ∨ '\uFFFD' ∉ first.key.toList →
        (first.key = second.key ↔ first.components = second.components)) ∧
      (Path.ofText first.key).key = first.key ∧
      ∀ {σ : Type} (S : Surroundings σ) (state : σ),
        (List.Forall₂ Path.Component.Alike first.components second.components →
          S.Serves first second state) ∧
        (¬ List.Forall₂ Path.Component.Alike first.components second.components →
          S.SparesFile first second state) := by
  refine ⟨Path.key_eq_iff, ?_, Path.key_ofText_key first, fun S state => ⟨fun alike => ?_,
    fun unlike => ?_⟩⟩
  · rintro (⟨isText, isTextToo⟩ | clear)
    · obtain ⟨here, isHere⟩ := Option.ne_none_iff_exists'.1 isText
      obtain ⟨there, isThere⟩ := Option.ne_none_iff_exists'.1 isTextToo
      exact Path.key_eq_iff_of_text isHere isThere
    · exact Path.key_eq_iff_of_clear clear
  · exact S.serves_of_key_eq (Path.key_eq_iff.2 alike) state
  · exact S.sparesFile_of_key_ne (fun same => unlike (Path.key_eq_iff.1 same)) state

namespace Surroundings

/-- A path whose only name is no text. -/
def garbled : Path := ⟨[0xFF]⟩

/-- The path that is shown for it. -/
def replaced : Path := Path.ofText "\uFFFD"

/-- A repository that knows the one, but not the other. -/
def knowsReplaced : LocaleWatch.Answers
  | .lastCommit path => .ok (if path = replaced then some oldCommit else none)
  | query => oneFile true query

/-- After a question about the one that it knows. -/
def replacedAsked : Unit × Entries :=
  (settled knowsReplaced).after (lastCommit replaced) ((), .empty)

/-- The commit of the one file is given for the other, of which the repository knows none. -/
theorem entries_shared_iff_garbled :
    replaced.components ≠ garbled.components ∧
      (settled knowsReplaced).answer replacedAsked (.lastCommit garbled) = .ok none ∧
      (settled knowsReplaced).result (lastCommit garbled) replacedAsked = .ok (some oldCommit) := by
  have differ : replaced.components ≠ garbled.components := by
    decide +kernel
  have alike : List.Forall₂ Path.Component.Alike replaced.components garbled.components := by
    decide +kernel
  have told : (settled knowsReplaced).result (lastCommit replaced) ((), .empty) =
      .ok (some oldCommit) := by
    decide +kernel
  have granted : ¬ Refuses ((settled knowsReplaced).trace (lastCommit garbled) replacedAsked) := by
    unfold Refuses
    decide +kernel
  obtain ⟨-, -, -, shares⟩ := entries_shared_iff replaced garbled
  obtain ⟨-, given | ⟨error, -, refuses⟩⟩ :=
    ((shares (settled knowsReplaced) ((), .empty)).1 alike).last _ told
  · exact ⟨differ, rfl, given⟩
  · exact absurd refuses granted

end Surroundings

end LocaleWatch
