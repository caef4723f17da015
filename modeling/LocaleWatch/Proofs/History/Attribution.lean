import LocaleWatch.Proofs.Cache.Memo
import LocaleWatch.Proofs.History.Permanence
import LocaleWatch.Proofs.Requests

/-!
# Which files a merge brought in

A merge brought in the files of its branch: those in which the parent off the main branch differs
from its fork commit. Whether there is one such parent is settled by the main branch that is given,
and its fork commit by what is kept or, where nothing is, by the ancestors that the repository
tells. Either position among the parents will do.

That the branch has no fork commit is an error of its own, and it never comes: only a lookup that
found one writes an entry for a fork commit, so no entry tells that there is none. This is an
invariant of every state that questions lead to from an empty store, whatever main branches they
were asked of and wherever they failed or were stopped.

## Main results

* `ends_mergeFilesWithin` — the transcripts of the question, errors included.
* `Surroundings.Visited.outlives` — in every visited state what is kept as a fork commit is one.
* `Surroundings.mergeFiles_decided` — what the question gives, for every list of parents.
-/

namespace LocaleWatch

open Attempt History

/-! ## Refusals -/

/-- Whether a request was refused: the run was cancelled, or the repository or the store gave an
error. -/
def Event.isRefused : Event Tracking → Bool
  | ⟨.isCancelled, told⟩ => told
  | ⟨.query _, .error _⟩ | ⟨.read _ _, .error _⟩ | ⟨.write _ _ _, .error _⟩
  | ⟨.delete _ _, .error _⟩ | ⟨.holds _ _, .error _⟩ => true
  | _ => false

/-- Some request was refused. -/
def Refuses (events : List (Event Tracking)) : Prop := ∃ event ∈ events, event.isRefused = true

theorem Refuses.mono {events more : List (Event Tracking)} (refuses : Refuses events)
    (among : events ⊆ more) : Refuses more := by
  obtain ⟨event, mem, refused⟩ := refuses
  exact ⟨event, among mem, refused⟩

variable {α : Type} {events : List (Event Tracking)} {entries last : Entries}

section

variable [JsonForm α] {category key : String} {reading : Option (Option α)}

/-- An entry that can be read is looked up in vain only if a request is refused. -/
theorem Loading.refuses {error : CacheError}
    (loading : Loading category key reading events (.error error))
    (readable : reading ≠ some none) : Refuses events := by
  cases loading with
  | cancelled => exact ⟨_, List.mem_cons_self, rfl⟩
  | refused => exact ⟨_, List.mem_cons_of_mem _ List.mem_cons_self, rfl⟩
  | unreadable reads isUnreadable => exact absurd isUnreadable readable

/-- A value is written down in vain only if a request is refused. -/
theorem Writing.refuses {value : α} {error : CacheError}
    (writing : Writing category key value events (.error error)) : Refuses events := by
  cases writing with
  | cancelled => exact ⟨_, List.mem_cons_self, rfl⟩
  | asked => exact ⟨_, List.mem_cons_of_mem _ List.mem_cons_self, rfl⟩

end

/-- An entry that can be read, or else is computed by a query, is looked up in vain only if a
request is refused. -/
theorem Lookup.refuses (query : Query) [JsonForm query.Result] {category key : String}
    {isInvalid : query.Result → Bool} {reading : Option (Option query.Result)}
    {events : List (Event Tracking)} {error : HistoryError}
    (lookup : Lookup isInvalid category key (Tracking.query query) reading events (.error error))
    (readable : reading ≠ some none) : Refuses events := by
  cases lookup with
  | unread loading => exact loading.refuses readable
  | uncomputed loading invalid computes =>
    obtain ⟨told, rfl, same⟩ := ends_query.1 computes
    cases told with
    | ok value => cases same
    | error error => exact ⟨_, List.mem_append_right _ List.mem_cons_self, rfl⟩
  | unwritten loading invalid computes writing =>
    exact writing.refuses.mono
      (List.subset_append_of_subset_right _ (List.subset_append_right _ _))

/-! ## Fork commits -/

/-- A fork commit is the one that is kept, or where none is kept the first ancestor on the main
branch, as the repository told them. -/
def Entries.ForkFor (entries : Entries) (events : List (Event Tracking)) (main : MainBranch)
    (branch : CommitId) (fork : Commit) : Prop :=
  entries.Shows forkCategory branch.text (some (some fork)) ∨
    (entries forkCategory branch.text = none ∧ ∃ ancestors,
      .query (.ancestors branch) (.ok ancestors) ∈ events ∧ main.firstOn? ancestors = some fork)

/-- There is no fork commit: none is kept, and no ancestor is on the main branch, as the repository
told them. -/
def Entries.NoForkFor (entries : Entries) (events : List (Event Tracking)) (main : MainBranch)
    (branch : CommitId) : Prop :=
  entries forkCategory branch.text = none ∧ ∃ ancestors,
    .query (.ancestors branch) (.ok ancestors) ∈ events ∧ main.firstOn? ancestors = none

/-- How the fork commit of a commit off the main branch is looked up, errors included. -/
inductive Forking (entries : Entries) (main : MainBranch) (branch : CommitId)
    (events : List (Event Tracking)) (last : Entries) :
    Except HistoryError (Option Commit) → Prop where
  | found {fork : Commit} (isFork : entries.ForkFor events main branch fork)
    (shown : last.Shows forkCategory branch.text (some (some fork))) :
    Forking entries main branch events last (.ok (some fork))
  | missing (none : entries.NoForkFor events main branch) (still : last = entries) :
    Forking entries main branch events last (.error (.inconsistent (.noMainAncestor branch)))
  | refused {error : HistoryError} (noViolation : error.isViolation = false)
    (refuses : Refuses events) : Forking entries main branch events last (.error error)

/-- How the fork commit is found out from the ancestors. -/
theorem ends_findFork {main : MainBranch} {branch : CommitId}
    {result : Except HistoryError (Option Commit)}
    (ends : Ends (findFork main branch) events result) :
    (∃ error, events = [.query (.ancestors branch) (.error error)] ∧
        result = .error (.repository error)) ∨
      (∃ ancestors, events = [.query (.ancestors branch) (.ok ancestors)] ∧
        main.firstOn? ancestors = none ∧
          result = .error (.inconsistent (.noMainAncestor branch))) ∨
      ∃ ancestors fork, events = [.query (.ancestors branch) (.ok ancestors)] ∧
        main.firstOn? ancestors = some fork ∧ result = .ok (some fork) := by
  rcases ends_bind.1 ends with ⟨error, failed, rfl⟩ | ⟨ancestors, _, _, rfl, asked, found⟩
  · obtain ⟨told, rfl, same⟩ := ends_query.1 failed
    cases told with
    | ok ancestors => cases same
    | error reason =>
      cases same
      exact .inl ⟨reason, rfl, rfl⟩
  · rw [ends_query_ok.1 asked]
    cases first : main.firstOn? ancestors with
    | some fork =>
      simp only [first] at found
      obtain ⟨rfl, rfl⟩ := ends_pure.1 found
      exact .inr (.inr ⟨ancestors, fork, rfl, first, rfl⟩)
    | none =>
      simp only [first] at found
      obtain ⟨rfl, rfl⟩ := ends_throw.1 found
      exact .inr (.inl ⟨ancestors, rfl, first, rfl⟩)

/-- It leaves the store alone. -/
private theorem findFork_spares (main : MainBranch) (branch : CommitId) :
    Asks (Tracking.Request.sparesEntries · = true) (findFork main branch) := by
  have asked : Asks (Tracking.Request.sparesEntries · = true)
      (Tracking.query (.ancestors branch)) := asks_query _ rfl
  refine asked.bind fun ancestors => ?_
  cases main.firstOn? ancestors with
  | some fork => exact .pure _
  | none => exact .throw _

section

variable {main : MainBranch} {branch : CommitId}

/-- An entry that is never invalid and shows no value is missing. -/
private theorem absent_of_unread {found : Option (Option Commit)}
    (loading : Loading forkCategory branch.text
      ((entries forkCategory branch.text).map (JsonForm.decode? (Option Commit))) events
      (.ok found))
    (invalid : ∀ value, found = some value → false = true) :
    entries forkCategory branch.text = none := by
  cases found with
  | some value => cases invalid value rfl
  | none => exact Option.map_eq_none_iff.1 loading.reading_eq

variable (forks : ∀ bytes, entries forkCategory branch.text = some bytes →
  ∃ fork, JsonForm.decode? (Option Commit) bytes = some (some fork))

include forks

/-- Where only fork commits are kept, what is kept can be read. -/
private theorem readable_of_forks :
    (entries forkCategory branch.text).map (JsonForm.decode? (Option Commit)) ≠ some none := by
  intro unreadable
  obtain ⟨bytes, held, noValue⟩ := Option.map_eq_some_iff.1 unreadable
  obtain ⟨fork, decoded⟩ := forks bytes held
  rw [decoded] at noValue
  contradiction

/-- Where only fork commits are kept, what is shown is one. -/
private theorem shown_of_forks {value : Option Commit}
    (shows : entries.Shows forkCategory branch.text (some value)) : ∃ fork, value = some fork := by
  obtain ⟨bytes, held, decoded⟩ := shows
  obtain ⟨fork, isFork⟩ := forks bytes held
  exact ⟨fork, Option.some.inj (decoded.symm.trans isFork)⟩

theorem ends_forkWithin {result : Except HistoryError (Option Commit)}
    (off : main.contains branch = false) (ends : Ends (forkWithin main branch) events result)
    (leads : entries.Leads events last) : Forking entries main branch events last result := by
  rw [forkWithin_off off] at ends
  obtain ⟨reading, unread⟩ := ends_getUnless ends
  obtain ⟨lookup, left⟩ := unread.among (findFork_spares main branch) leads
  cases lookup with
  | unread loading => exact .refused rfl (loading.refuses (readable_of_forks forks))
  | kept loading valid =>
    rcases left with ⟨shows, -, rfl⟩ | ⟨invalid, -⟩
    · obtain ⟨fork, rfl⟩ := shown_of_forks forks shows
      exact .found (.inl shows) shows
    · have shows := Entries.shows_iff.2 (decodes_iff.2 loading.reading_eq)
      exact nomatch invalid _ shows
  | uncomputed loading invalid computes =>
    have absent := absent_of_unread loading invalid
    rcases ends_findFork computes with ⟨error, rfl, same⟩ | ⟨ancestors, rfl, first, same⟩ |
      ⟨ancestors, fork, -, -, same⟩
    · cases same
      exact .refused rfl ⟨_, List.mem_append_right _ List.mem_cons_self, rfl⟩
    · cases same
      exact .missing ⟨absent, ancestors, List.mem_append_right _ List.mem_cons_self, first⟩ left
    · cases same
  | unwritten loading invalid computes writing =>
    refine .refused rfl (writing.refuses.mono ?_)
    exact List.subset_append_of_subset_right _ (List.subset_append_right _ _)
  | computed loading invalid computes writing =>
    have absent := absent_of_unread loading invalid
    rcases ends_findFork computes with ⟨error, -, same⟩ | ⟨ancestors, -, -, same⟩ |
      ⟨ancestors, fork, rfl, first, same⟩
    · cases same
    · cases same
    · cases same
      rcases left with ⟨⟨bytes, held, -⟩, -, -⟩ | ⟨-, rfl⟩
      · exact nomatch absent.symm.trans held
      · refine .found (.inr ⟨absent, ancestors, ?_, first⟩) (Entries.shows_put (some fork))
        exact List.mem_append_right _ List.mem_cons_self

end

/-! ## Merges -/

/-- One of two parents is off the main branch, in either position. -/
def OneOff (main : MainBranch) (parents : List CommitId) (branch : CommitId) : Prop :=
  main.contains branch = false ∧ ∃ other, main.contains other = true ∧
    (parents = [branch, other] ∨ parents = [other, branch])

theorem oneOff_iff {main : MainBranch} {first second branch : CommitId} :
    OneOff main [first, second] branch ↔ [first, second].filter (!main.contains ·) = [branch] := by
  constructor
  · rintro ⟨off, other, on, same | same⟩
    · cases same
      simp [off, on]
    · cases same
      simp [off, on]
  · intro filtered
    cases isFirst : main.contains first with
    | true =>
      cases isSecond : main.contains second with
      | true => simp [isFirst, isSecond] at filtered
      | false =>
        have same : second = branch := by simpa [isFirst, isSecond] using filtered
        exact ⟨same ▸ isSecond, first, isFirst, .inr (by rw [same])⟩
    | false =>
      cases isSecond : main.contains second with
      | true =>
        have same : first = branch := by simpa [isFirst, isSecond] using filtered
        exact ⟨same ▸ isFirst, second, isSecond, .inl (by rw [same])⟩
      | false => simp [isFirst, isSecond] at filtered

namespace OneOff

variable {main : MainBranch} {parents : List CommitId} {branch : CommitId}

theorem length_eq (oneOff : OneOff main parents branch) : parents.length = 2 := by
  obtain ⟨-, other, -, rfl | rfl⟩ := oneOff
  · rfl
  · rfl

theorem contains_ne {first second : CommitId} (oneOff : OneOff main [first, second] branch) :
    main.contains first ≠ main.contains second := by
  obtain ⟨off, other, on, pair | pair⟩ := oneOff
  · cases pair
    simp [off, on]
  · cases pair
    simp [off, on]

/-- Two parents have one branch at most. -/
theorem unique {other : CommitId} (oneOff : OneOff main parents branch)
    (again : OneOff main parents other) : branch = other := by
  obtain ⟨first, second, rfl⟩ := List.length_eq_two.1 oneOff.length_eq
  rw [oneOff_iff] at oneOff again
  exact List.singleton_inj.1 (oneOff.symm.trans again)

end OneOff

/-- How the question goes which files a merge brought in, errors included. -/
inductive Attributing (main : MainBranch) (merge : CommitId) :
    List (Event Tracking) → Except HistoryError (List String) → Prop where
  | untold {error : RepositoryError} :
    Attributing main merge [.query (.parents merge) (.error error)] (.error (.repository error))
  | few {parents : List CommitId} (few : parents.length ≤ 1) :
    Attributing main merge [.query (.parents merge) (.ok parents)] (.ok [])
  | octopus {parents : List CommitId} (many : 3 ≤ parents.length) :
    Attributing main merge [.query (.parents merge) (.ok parents)]
      (.error (.octopus merge parents.length))
  | unclear {first second : CommitId} (same : main.contains first = main.contains second) :
    Attributing main merge [.query (.parents merge) (.ok [first, second])]
      (.error (.inconsistent (.parentsOffMain merge (if main.contains first then 0 else 2))))
  | unforked {parents : List CommitId} {branch : CommitId} {forking : List (Event Tracking)}
    {error : HistoryError} (oneOff : OneOff main parents branch)
    (ends : Ends (forkWithin main branch) forking (.error error)) :
    Attributing main merge (.query (.parents merge) (.ok parents) :: forking) (.error error)
  | noFork {parents : List CommitId} {branch : CommitId} {forking : List (Event Tracking)}
    (oneOff : OneOff main parents branch)
    (ends : Ends (forkWithin main branch) forking (.ok none)) :
    Attributing main merge (.query (.parents merge) (.ok parents) :: forking)
      (.error (.inconsistent (.noForkCommit branch merge)))
  | compared {parents : List CommitId} {branch : CommitId} {forking : List (Event Tracking)}
    {fork : Commit} {told : Except RepositoryError (List String)}
    (oneOff : OneOff main parents branch)
    (ends : Ends (forkWithin main branch) forking (.ok (some fork))) :
    Attributing main merge
      (.query (.parents merge) (.ok parents) ::
        (forking ++ [.query (.filesBetween fork.id branch) told]))
      (told.mapError .repository)

/-- How it goes with two parents, once they were told. -/
private theorem attributing_pair {main : MainBranch} {merge first second : CommitId}
    {result : Except HistoryError (List String)}
    (ends : Ends (match [first, second].filter (!main.contains ·) with
      | [branch] => do
        match ← forkWithin main branch with
        | some fork => Tracking.query (.filesBetween fork.id branch)
        | none => throw (.inconsistent (.noForkCommit branch merge))
      | off => throw (.inconsistent (.parentsOffMain merge off.length)) : History (List String))
      events result) :
    Attributing main merge ([.query (.parents merge) (.ok [first, second])] ++ events) result := by
  split at ends
  · next branch filtered =>
    have oneOff : OneOff main [first, second] branch := oneOff_iff.2 filtered
    rcases ends_bind.1 ends with ⟨error, failed, rfl⟩ | ⟨fork, forking, _, rfl, looked, last⟩
    · exact .unforked oneOff failed
    · cases fork with
      | none =>
        obtain ⟨rfl, rfl⟩ := ends_throw.1 last
        rw [List.append_nil]
        exact .noFork oneOff looked
      | some fork =>
        obtain ⟨told, rfl, rfl⟩ := ends_query.1 last
        exact .compared oneOff looked
  · next notOne =>
    obtain ⟨rfl, rfl⟩ := ends_throw.1 ends
    have same : main.contains first = main.contains second := by
      cases isFirst : main.contains first with
      | true =>
        cases isSecond : main.contains second with
        | true => rfl
        | false => exact (notOne second (by simp [isFirst, isSecond])).elim
      | false =>
        cases isSecond : main.contains second with
        | true => exact (notOne first (by simp [isFirst, isSecond])).elim
        | false => rfl
    have count : ([first, second].filter (!main.contains ·)).length =
        if main.contains first then 0 else 2 := by
      cases isFirst : main.contains first with
      | true => simp [← same, isFirst]
      | false => simp [← same, isFirst]
    rw [count]
    exact .unclear same

/-- The question goes in one of seven ways. -/
theorem ends_mergeFilesWithin {main : MainBranch} {merge : CommitId}
    {result : Except HistoryError (List String)}
    (ends : Ends (mergeFilesWithin main merge) events result) :
    Attributing main merge events result := by
  rcases ends_bind.1 ends with ⟨error, failed, rfl⟩ | ⟨parents, _, _, rfl, asked, rest⟩
  · obtain ⟨told, rfl, same⟩ := ends_query.1 failed
    cases told with
    | ok parents => cases same
    | error reason =>
      cases same
      exact .untold
  · rw [ends_query_ok.1 asked]
    rcases parents with _ | ⟨first, _ | ⟨second, _ | ⟨third, more⟩⟩⟩
    · obtain ⟨rfl, rfl⟩ := ends_pure.1 rest
      exact .few (Nat.zero_le 1)
    · obtain ⟨rfl, rfl⟩ := ends_pure.1 rest
      exact .few (Nat.le_refl 1)
    · exact attributing_pair rest
    · obtain ⟨rfl, rfl⟩ := ends_throw.1 rest
      exact .octopus (Nat.le_add_left 3 more.length)

/-! ## Visited states -/

/-- A question to the tracker: a call, or a question about a branch on any main branch. -/
inductive Inquiry where
  | call (asked : Call)
  | forkWithin (main : MainBranch) (commit : CommitId)
  | mergeWithin (main : MainBranch) (commit : CommitId)
  | mergeFilesWithin (main : MainBranch) (merge : CommitId)

namespace Inquiry

/-- What a question gives. -/
@[reducible] def Result : Inquiry → Type
  | call asked => asked.Result
  | forkWithin _ _ | mergeWithin _ _ => Option Commit
  | mergeFilesWithin _ _ => List String

/-- How a question is carried out. -/
def attempt : (inquiry : Inquiry) → History inquiry.Result
  | call asked => asked.attempt
  | forkWithin main commit => History.forkWithin main commit
  | mergeWithin main commit => History.mergeWithin main commit
  | mergeFilesWithin main merge => History.mergeFilesWithin main merge

end Inquiry

namespace Surroundings

variable {σ : Type} {S : Surroundings σ} {state : σ}

/-- The states that questions lead to from an empty store. A question gives an answer, fails, or is
stopped after some requests. -/
inductive Visited (S : Surroundings σ) : σ → Prop where
  | start {state : σ} (nothing : S.entries state = .empty) : Visited S state
  | ended {state : σ} (before : Visited S state) (inquiry : Inquiry) :
    Visited S (S.after inquiry.attempt state)
  | stopped {state : σ} (before : Visited S state) (inquiry : Inquiry) (count : Nat) :
    Visited S (S.stopped inquiry.attempt count state)

/-- Every question leaves what is kept of branches. -/
theorem keeps_inquiry {kept : Entries} (inquiry : Inquiry) :
    Attempt.Keeps S.handler (S.Outliving kept) inquiry.attempt fun _ => True := by
  cases inquiry with
  | call asked => exact keeps_call asked
  | forkWithin main commit => exact (keeps_forkStays main commit).mono fun _ _ => trivial
  | mergeWithin main commit => exact (keeps_mergeStays main commit).mono fun _ _ => trivial
  | mergeFilesWithin main merge => exact keeps_mergeFilesStay main merge

/-- In a visited state what is kept as a fork commit is one. -/
theorem Visited.outlives (visited : S.Visited state) :
    Entries.Outlives .empty (S.entries state) := by
  induction visited with
  | start nothing =>
    rw [nothing]
    exact .empty
  | ended before inquiry ih => exact (keeps_run (keeps_inquiry inquiry) ih).1
  | stopped before inquiry count ih => exact keeps_stopped (keeps_inquiry inquiry) ih count

end Surroundings

/-! ## What the question gives -/

/-- Which files a merge brought in, by its parents and by what was kept and told. -/
structure Decided (entries : Entries) (events : List (Event Tracking)) (main : MainBranch)
    (merge : CommitId) (parents : List CommitId) (result : Except HistoryError (List String)) :
    Prop where
  few : parents.length ≤ 1 → result = .ok []
  octopus : 3 ≤ parents.length → result = .error (.octopus merge parents.length)
  unclear : ∀ first second, parents = [first, second] →
    main.contains first = main.contains second →
      result = .error (.inconsistent (.parentsOffMain merge (if main.contains first then 0 else 2)))
  branch : ∀ branch, OneOff main parents branch →
    (∃ fork files, entries.ForkFor events main branch fork ∧
        .query (.filesBetween fork.id branch) (.ok files) ∈ events ∧ result = .ok files) ∨
      (entries.NoForkFor events main branch ∧
        result = .error (.inconsistent (.noMainAncestor branch)))

section

variable {main : MainBranch} {merge : CommitId} {parents : List CommitId}
  {result : Except HistoryError (List String)}

/-- With one parent off the main branch, it is that branch that decides. -/
theorem Decided.of_oneOff {branch : CommitId} (oneOff : OneOff main parents branch)
    (decides : (∃ fork files, entries.ForkFor events main branch fork ∧
        .query (.filesBetween fork.id branch) (.ok files) ∈ events ∧ result = .ok files) ∨
      (entries.NoForkFor events main branch ∧
        result = .error (.inconsistent (.noMainAncestor branch)))) :
    Decided entries events main merge parents result where
  few few := by
    rw [oneOff.length_eq] at few
    contradiction
  octopus many := by
    rw [oneOff.length_eq] at many
    contradiction
  unclear first second pair same := by
    subst pair
    exact absurd same oneOff.contains_ne
  branch again isBranch := by
    cases oneOff.unique isBranch
    exact decides

variable (forks : ∀ {branch : CommitId} {bytes}, entries forkCategory branch.text = some bytes →
  ∃ fork, JsonForm.decode? (Option Commit) bytes = some (some fork))
include forks

/-- Where only fork commits are kept as such, a branch that has none is never met. -/
theorem Attributing.result_ne_noFork (attributing : Attributing main merge events result)
    (leads : entries.Leads events last) (branch other : CommitId) :
    result ≠ .error (.inconsistent (.noForkCommit branch other)) := by
  cases attributing with
  | untold => nofun
  | few few => nofun
  | octopus many => nofun
  | unclear same => nofun
  | unforked oneOff ends =>
    obtain ⟨-, forking⟩ := leads
    cases ends_forkWithin (fun _ held => forks held) oneOff.1 ends forking with
    | missing none still => nofun
    | refused noViolation refuses =>
      rintro ⟨⟩
      cases noViolation
  | noFork oneOff ends =>
    obtain ⟨-, forking⟩ := leads
    nomatch ends_forkWithin (fun _ held => forks held) oneOff.1 ends forking
  | @compared _ _ _ _ told oneOff ends =>
    cases told with
    | ok files => nofun
    | error error => nofun

/-- If nothing is refused, the parents decide, and an error leaves the store as it was. -/
theorem Attributing.decided (attributing : Attributing main merge events result)
    (leads : entries.Leads events last) (granted : ¬ Refuses events) :
    (∃ parents, .query (.parents merge) (.ok parents) ∈ events ∧
      Decided entries events main merge parents result) ∧
      ∀ error, result = .error error → last = entries := by
  cases attributing with
  | untold => exact absurd ⟨_, List.mem_cons_self, rfl⟩ granted
  | @few parents few =>
    refine ⟨⟨parents, List.mem_cons_self, ?_⟩, nofun⟩
    exact
      { few := fun _ => rfl
        octopus := fun many => by omega
        unclear := fun first second pair _ => by simp [pair] at few
        branch := fun branch oneOff => by simp [oneOff.length_eq] at few }
  | @octopus parents many =>
    refine ⟨⟨parents, List.mem_cons_self, ?_⟩, fun _ _ => leads.2⟩
    exact
      { few := fun few => by omega
        octopus := fun _ => rfl
        unclear := fun first second pair _ => by simp [pair] at many
        branch := fun branch oneOff => by simp [oneOff.length_eq] at many }
  | @unclear first second same =>
    refine ⟨⟨[first, second], List.mem_cons_self, ?_⟩, fun _ _ => leads.2⟩
    exact
      { few := fun few => by simp at few
        octopus := fun many => by simp at many
        unclear := fun _ _ pair _ => by
          cases pair
          rfl
        branch := fun branch oneOff => absurd same oneOff.contains_ne }
  | @unforked parents branch forking error oneOff ends =>
    obtain ⟨-, leads⟩ := leads
    cases ends_forkWithin (fun _ held => forks held) oneOff.1 ends leads with
    | missing none still =>
      refine ⟨⟨parents, List.mem_cons_self, .of_oneOff oneOff (.inr ⟨?_, rfl⟩)⟩, fun _ _ => still⟩
      obtain ⟨absent, ancestors, told, noFirst⟩ := none
      exact ⟨absent, ancestors, List.mem_cons_of_mem _ told, noFirst⟩
    | refused noViolation refuses =>
      exact absurd (refuses.mono (List.subset_cons_self _ _)) granted
  | noFork oneOff ends =>
    obtain ⟨-, leads⟩ := leads
    nomatch ends_forkWithin (fun _ held => forks held) oneOff.1 ends leads
  | @compared parents branch forking fork told oneOff ends =>
    obtain ⟨-, leads⟩ := leads
    obtain ⟨between, forked, -⟩ := Entries.leads_append.1 leads
    cases told with
    | error error =>
      exact absurd ⟨_, List.mem_cons_of_mem _ (List.mem_append_right _ List.mem_cons_self), rfl⟩
        granted
    | ok files =>
      refine ⟨⟨parents, List.mem_cons_self, .of_oneOff oneOff (.inl ⟨fork, files, ?_, ?_, rfl⟩)⟩,
        nofun⟩
      · cases ends_forkWithin (fun _ held => forks held) oneOff.1 ends forked with
        | found isFork shown =>
          refine isFork.imp_right fun ⟨absent, ancestors, told, first⟩ => ?_
          exact ⟨absent, ancestors, List.mem_cons_of_mem _ (List.mem_append_left _ told), first⟩
      · exact List.mem_cons_of_mem _ (List.mem_append_right _ List.mem_cons_self)

end

namespace Surroundings

variable {σ : Type} {S : Surroundings σ} {state : σ}

/-- In a visited state the question which files a merge brought in never gives the error that the
branch has no fork commit. If nothing is refused, the parents and the given main branch decide what
it gives, and an error leaves the store as it was. -/
theorem mergeFiles_decided (visited : S.Visited state) (main : MainBranch) (merge : CommitId) :
    let result := S.result (mergeFilesWithin main merge) state
    let events := S.trace (mergeFilesWithin main merge) state
    (∀ branch other, result ≠ .error (.inconsistent (.noForkCommit branch other))) ∧
      (¬ Refuses events →
        (∃ parents, .query (.parents merge) (.ok parents) ∈ events ∧
          Decided (S.entries state) events main merge parents result) ∧
        ∀ error, result = .error error →
          S.entries (S.after (mergeFilesWithin main merge) state) = S.entries state) := by
  intro result events
  have leads : (S.entries state).Leads events _ := S.leads (mergeFilesWithin main merge) state
  have attributing : Attributing main merge events result :=
    ends_mergeFilesWithin (S.ends_trace _ state)
  exact ⟨attributing.result_ne_noFork visited.outlives.isFork leads,
    attributing.decided visited.outlives.isFork leads⟩

/-- A repository in which a merge names its branch first, and which tells fewer files the later the
branch is compared from. -/
def crossed : LocaleWatch.Answers
  | .parents _ => .ok [branchCommit.id, nextCommit.id]
  | .ancestors _ => .ok [branchCommit, nextCommit, baseCommit]
  | .filesBetween first _ => .ok (if first = baseCommit.id then ["guide", "page"] else ["guide"])
  | query => oneFile true query

/-- A main branch on which the branch's parent is found. -/
def laterMain : MainBranch := ⟨[nextCommit, baseCommit]⟩

/-- After the fork commit was looked up on an earlier main branch. -/
def forkKnown : Unit × Entries :=
  (settled crossed).after (Inquiry.forkWithin ⟨[baseCommit]⟩ branchCommit.id).attempt ((), .empty)

/-- The branch is compared with the fork commit that is kept, and not with the one that would be
found on the main branch that is given. -/
theorem mergeFiles_decided_kept :
    (settled crossed).Visited forkKnown ∧
      ¬ Refuses ((settled crossed).trace (mergeFilesWithin laterMain mergeCommit.id) forkKnown) ∧
      laterMain.firstOn? [branchCommit, nextCommit, baseCommit] = some nextCommit ∧
      (settled crossed).result (mergeFilesWithin laterMain mergeCommit.id) forkKnown =
        .ok ["guide", "page"] := by
  have visited : (settled crossed).Visited forkKnown := .ended (.start rfl) _
  have granted : ¬ Refuses
      ((settled crossed).trace (mergeFilesWithin laterMain mergeCommit.id) forkKnown) := by
    unfold Refuses
    decide +kernel
  have known : (settled crossed).entries forkKnown forkCategory "s2" =
      some (Text.bytes (JsonForm.compact (some baseCommit))) := by
    decide +kernel
  have fixed : (settled crossed).SteadyBut (fun _ => False) fun _ => True :=
    calm_steadyBut fun _ _ _ _ _ => rfl
  obtain ⟨⟨parents, told, decided⟩, -⟩ :=
    (mergeFiles_decided visited laterMain mergeCommit.id).2 granted
  cases answer_of_trace fixed trivial told
  refine ⟨visited, granted, by decide, ?_⟩
  rcases decided.branch branchCommit.id (oneOff_iff.2 (by decide)) with
    ⟨fork, files, isFork, told, given⟩ | ⟨none, -⟩
  · have kept : ((settled crossed).entries forkKnown).Shows forkCategory "s2"
        (some (some baseCommit)) :=
      ⟨_, known, JsonForm.decode_compact (some baseCommit)⟩
    have isBase : fork = baseCommit := by
      rcases isFork with shown | ⟨absent, -⟩
      · exact Option.some.inj (Option.some.inj (shown.unique kept))
      · exact nomatch known.symm.trans absent
    subst isBase
    cases answer_of_trace fixed trivial told
    exact given
  · exact nomatch known.symm.trans none.1

end Surroundings

end LocaleWatch
