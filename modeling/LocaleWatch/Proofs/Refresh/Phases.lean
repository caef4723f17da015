import LocaleWatch.Proofs.Calls

/-!
# The phases of a refresh

A refresh gathers what is fresh and which files change, forgets those files, pulls, and
settles what it left behind. The pull is the one step by which the repository's history
moves, so every property of a refresh is one of the phases before it and after it.

## Main results

* `Refresh.run_eq` — a refresh is its phases one after the other.
* `Surroundings.triple_prepare` — after the first phases nothing is kept about the files
  that change.
* `Surroundings.triple_prepare_of`, `Surroundings.triple_advance_of` — what holds for whatever is
  fresh holds, before the pull and after one that is refused, for what was fresh.
* `Surroundings.run_ended` — a refresh that gives an outcome has prepared it, pulled and settled.
-/

namespace LocaleWatch

namespace Refresh

/-- Fetch, and find out what is fresh and which files change. -/
def gather : History Outcome := do
  let () ← Tracking.query .fetch
  let fresh ← Tracking.query .freshCommits
  let changed ← changedFiles fresh
  return ⟨fresh, changed⟩

/-- What is done before the pull. -/
def prepare : History Outcome := do
  let outcome ← gather
  outcome.changed.forM History.forgetFile
  return outcome

/-- What is done up to the pull. -/
def advance : History Outcome := do
  let outcome ← prepare
  let () ← Tracking.query .pull
  return outcome

/-- Note down the state that a refresh leaves. -/
def record (outcome : Outcome) : History Outcome := do
  let state : RefreshState := ⟨← Tracking.query .mainHead, outcome.changed⟩
  Attempt.mapError .cache (Cache.put stateCategory "" state)
  return outcome

/-- What is done after the pull. -/
def settle (outcome : Outcome) : History Outcome := do
  unless outcome.fresh.isEmpty do History.forgetMainBranch
  record outcome

/-- A refresh is its phases one after the other. -/
theorem run_eq : run = advance >>= settle := by
  simp only [run, advance, prepare, gather, settle, record, bind_assoc, pure_bind]

end Refresh

namespace Entries

variable {entries : Entries} {files : List String} {file : String}

/-- Nothing is kept about some files. -/
def Lacks (entries : Entries) (files : List String) : Prop :=
  ∀ file ∈ files, entries History.lastCommitCategory (Path.ofText file).key = none ∧
    entries History.commitsAfterCategory (Path.ofText file).key = none

private theorem remove_none {category key other name : String}
    (none : entries other name = none) : entries.remove category key other name = .none := by
  unfold remove
  split
  · rfl
  · exact none

theorem Lacks.remove (lacks : entries.Lacks files) (category key : String) :
    (entries.remove category key).Lacks files :=
  fun file mem => ⟨remove_none (lacks file mem).1, remove_none (lacks file mem).2⟩

/-- With the two entries of a file removed, nothing is kept about that file either. -/
theorem Lacks.forget (lacks : entries.Lacks files)
    (last : entries History.lastCommitCategory (Path.ofText file).key = none) :
    (entries.remove History.commitsAfterCategory (Path.ofText file).key).Lacks
      (files ++ [file]) := by
  intro other mem
  rcases List.mem_append.1 mem with mem | mem
  · exact lacks.remove _ _ other mem
  · rw [List.mem_singleton.1 mem]
    exact ⟨remove_none last, remove_self⟩

end Entries

namespace Surroundings

variable {σ : Type} {S : Surroundings σ} {kind : σ → Prop}

section

variable (sturdy : S.Sturdy kind)
include sturdy

/-- Forgetting one more file. -/
theorem triple_forgetFile (done : List String) (file : String) :
    Attempt.Triple S.handler kind (fun state => kind state ∧ (S.entries state).Lacks done)
      (History.forgetFile file) fun _ state =>
        kind state ∧ (S.entries state).Lacks (done ++ [file]) := by
  have dropLast : Attempt.Triple S.handler kind
      (fun state => kind state ∧ (S.entries state).Lacks done)
      (Cache.drop History.lastCommitCategory (Path.ofText file).key) fun _ state =>
        kind state ∧ (S.entries state).Lacks done ∧
          S.entries state History.lastCommitCategory (Path.ofText file).key = none :=
    triple_drop (·.Lacks done) (fun entries => entries.Lacks done ∧
        entries History.lastCommitCategory (Path.ofText file).key = none)
      (fun holds => sturdy.removal holds) fun entries lacks =>
        ⟨lacks.remove _ _, Entries.remove_self⟩
  have dropAfter : Attempt.Triple S.handler kind
      (fun state => kind state ∧ (S.entries state).Lacks done ∧
        S.entries state History.lastCommitCategory (Path.ofText file).key = none)
      (Cache.drop History.commitsAfterCategory (Path.ofText file).key) fun _ state =>
        kind state ∧ (S.entries state).Lacks (done ++ [file]) :=
    triple_drop (fun entries => entries.Lacks done ∧
        entries History.lastCommitCategory (Path.ofText file).key = none)
      (·.Lacks (done ++ [file]))
      (fun holds => sturdy.removal holds) fun entries lacks => lacks.1.forget lacks.2
  exact dropLast.mapError.bind fun _ => dropAfter.mapError

variable (fetch : ∀ {state}, kind state → kind (S.next (.query .fetch) state))
include fetch

theorem keeps_gather : Attempt.Keeps S.handler kind Refresh.gather fun _ => True := by
  have fetched : Attempt.Keeps S.handler kind (Tracking.query .fetch) fun _ => True :=
    (keeps_query fun holds => fetch holds).mono fun _ _ => trivial
  apply fetched.andThen
  intro _
  apply (keeps_asked sturdy.quiet rfl).andThen
  intro fresh
  exact (sturdy.changedFiles fresh).andThen fun changed => .pure trivial

/-- After the first phases nothing is kept about the files that change. -/
theorem triple_prepare :
    Attempt.Triple S.handler kind kind Refresh.prepare fun outcome state =>
      kind state ∧ (S.entries state).Lacks outcome.changed := by
  apply Attempt.Triple.bind (keeps_gather sturdy fetch)
  intro outcome
  have loop : Attempt.Triple S.handler kind
      (fun state => kind state ∧ (S.entries state).Lacks [])
      (outcome.changed.forM History.forgetFile) fun _ state =>
        kind state ∧ (S.entries state).Lacks ([] ++ outcome.changed) :=
    .forM (fun done state => kind state ∧ (S.entries state).Lacks done)
      (fun done file _ => triple_forgetFile sturdy done file) []
  apply Attempt.Triple.bind (loop.mono (fun state holds => ⟨holds.1, nofun⟩) fun _ _ holds => holds)
  intro _
  exact .pure fun state holds => holds

end

/-! ## Kinds of states by what is fresh -/

section

variable {kinds : List Commit → σ → Prop}
  (asked : ∀ {query fresh state}, query = .fetch ∨ query = .freshCommits → kinds fresh state →
    kinds fresh (S.next (.query query) state))
  (changed : ∀ fresh, Attempt.Keeps S.handler (kinds fresh) (Refresh.changedFiles fresh)
    fun _ => True)
  (forget : ∀ fresh path, Attempt.Keeps S.handler (kinds fresh) (History.forgetFile path)
    fun _ => True)
include asked changed forget

/-- What holds for whatever is fresh holds, before the pull, for what was fresh. -/
theorem triple_prepare_of :
    Attempt.Triple S.handler (fun state => ∃ fresh, kinds fresh state)
      (fun state => ∀ fresh, kinds fresh state) Refresh.prepare fun outcome state =>
        kinds outcome.fresh state := by
  have idle {query : Query} (early : query = .fetch ∨ query = .freshCommits) :
      Attempt.Triple S.handler (fun state => ∃ fresh, kinds fresh state)
        (fun state => ∀ fresh, kinds fresh state) (Tracking.query query) fun _ state =>
          ∀ fresh, kinds fresh state :=
    triple_query (fun _ holds => ⟨[], holds []⟩)
      (fun _ _ holds _ fresh => asked early (holds fresh))
      fun _ _ holds _ => ⟨[], asked early (holds [])⟩
  have kept {α : Type} {attempt : History α} {fresh : List Commit}
      (keeps : Attempt.Keeps S.handler (kinds fresh) attempt fun _ => True) :
      Attempt.Triple S.handler (fun state => ∃ fresh, kinds fresh state) (kinds fresh) attempt
        fun _ => kinds fresh :=
    (keeps.throughout fun _ holds => ⟨fresh, holds⟩).mono (fun _ holds => holds)
      fun _ _ holds => holds.1
  have gather : Attempt.Triple S.handler (fun state => ∃ fresh, kinds fresh state)
      (fun state => ∀ fresh, kinds fresh state) Refresh.gather fun outcome state =>
        kinds outcome.fresh state := by
    refine .bind (idle (.inl rfl)) fun _ => .bind (idle (.inr rfl)) fun fresh => ?_
    refine .bind ((kept (changed fresh)).demand fun _ holds => holds fresh) fun changed => ?_
    exact .pure fun _ holds => holds
  refine .bind gather fun outcome => ?_
  refine .bind (kept (.forM fun path _ => forget outcome.fresh path)) fun _ => ?_
  exact .pure fun _ holds => holds

/-- It holds after a pull that is refused, too. -/
theorem triple_advance_of
    (refused : ∀ {fresh state}, kinds fresh state → ¬ S.Answers .pull state →
      kinds fresh (S.next (.query .pull) state)) :
    Attempt.Triple S.handler (fun state => ∃ fresh, kinds fresh state)
      (fun state => ∀ fresh, kinds fresh state) Refresh.advance fun _ _ => True := by
  have pull (fresh : List Commit) :
      Attempt.Triple S.handler (fun state => ∃ fresh, kinds fresh state) (kinds fresh)
        (Tracking.query .pull) fun _ _ => True := by
    refine triple_query (fun _ holds => ⟨fresh, holds⟩) (fun _ _ _ _ => trivial) ?_
    intro state error holds told
    refine ⟨fresh, refused holds ?_⟩
    rintro ⟨value, answered⟩
    rw [told] at answered
    contradiction
  refine .bind (triple_prepare_of asked changed forget) fun outcome => ?_
  exact .bind (pull outcome.fresh) fun _ => .pure fun _ _ => trivial

end

/-! ## After the pull -/

theorem keeps_record (quiet : S.Undisturbed kind) (admits : S.Admits kind Refresh.stateCategory)
    (outcome : Refresh.Outcome) :
    Attempt.Keeps S.handler kind (Refresh.record outcome) fun value => value = outcome := by
  have write (state : RefreshState) : Attempt.Keeps S.handler kind
      (Cache.put Refresh.stateCategory "" state) fun _ => True :=
    keeps_put quiet fun holds => admits holds
  apply (keeps_asked quiet rfl).andThen
  intro head
  exact (write _).mapError.andThen fun _ => .pure rfl

theorem keeps_settle (sturdy : S.Sturdy kind) (admits : S.Admits kind Refresh.stateCategory)
    (outcome : Refresh.Outcome) :
    Attempt.Keeps S.handler kind (Refresh.settle outcome) fun value => value = outcome := by
  have record : Attempt.Keeps S.handler kind (Refresh.record outcome)
      fun value => value = outcome :=
    keeps_record sturdy.quiet admits outcome
  unfold Refresh.settle
  cases outcome.fresh.isEmpty with
  | true => exact record
  | false => exact (sturdy.call .forgetMainBranch nofun).andThen fun _ => record

private theorem sturdy_true : S.Sturdy fun _ => True where
  quiet _ _ := trivial
  removal _ := trivial
  fork _ := trivial
  merge _ := trivial
  main := keeps_true _
  last _ := keeps_true _
  commitsAfter _ _ := keeps_true _

/-- A refresh that gives an outcome has prepared it, pulled and settled. -/
theorem run_ended {state : σ} {outcome : Refresh.Outcome}
    (told : S.result Refresh.run state = .ok outcome) :
    S.result Refresh.prepare state = .ok outcome ∧
      S.Answers .pull (S.after Refresh.prepare state) ∧
      S.result (Refresh.settle outcome)
        (S.next (.query .pull) (S.after Refresh.prepare state)) = .ok outcome ∧
      S.after Refresh.run state = S.after (Refresh.settle outcome)
        (S.next (.query .pull) (S.after Refresh.prepare state)) := by
  rw [Refresh.run_eq] at told ⊢
  obtain ⟨advanced, advance, settle⟩ := result_bind_ok told
  obtain ⟨prepared, prepare, pull⟩ := result_bind_ok advance
  obtain ⟨⟨⟩, pulled, same⟩ := result_bind_ok pull
  cases same
  have ended : S.after Refresh.advance state =
      S.next (.query .pull) (S.after Refresh.prepare state) := by
    unfold Refresh.advance
    rw [after_bind, prepare]
    show S.after (Tracking.query .pull >>= fun _ => pure advanced) _ = _
    rw [after_bind, pulled, ← after_query]
    rfl
  have settled := (keeps_run (keeps_settle sturdy_true (fun _ => trivial) advanced) trivial).2
    outcome settle
  cases settled
  rw [ended] at settle
  refine ⟨prepare, ?_, settle, ?_⟩
  · rw [result_query] at pulled
    unfold Answers
    revert pulled
    cases (S.handler (.query .pull) (S.after Refresh.prepare state)).1 with
    | ok value => exact fun _ => ⟨value, rfl⟩
    | error error => exact nofun
  · rw [after_bind, advance, ended]

/-- A refresh gives what it gathered. -/
theorem result_gather_of_run {state : σ} {outcome : Refresh.Outcome}
    (told : S.result Refresh.run state = .ok outcome) :
    S.result Refresh.gather state = .ok outcome := by
  obtain ⟨gathered, gather, forget⟩ := result_bind_ok (run_ended told).1
  obtain ⟨-, -, same⟩ := result_bind_ok forget
  cases same
  exact gather

end Surroundings

end LocaleWatch
