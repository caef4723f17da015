import LocaleWatch.Proofs.Calm
import LocaleWatch.Proofs.History.Files
import LocaleWatch.Proofs.Refresh.Phases

/-!
# What is kept about files is current

A refresh forgets the files that it finds changed before it pulls. If the pull changes the
repository's answers about these files only, then what is left about files is right before
the pull and after it. So wherever a run stands, and whatever was refused or stopped on the
way, a kept answer about a file is the repository's own.

## Main results

* `Surroundings.triple_refresh_filesCurrent` — a refresh never leaves, nor passes through, a
  state with a wrong entry about a file.
* `Surroundings.fileAnswers_current` — in every run, each answer about a file is the one that
  the repository gives at that moment.
-/

namespace LocaleWatch

open History

/-- Entries that are right stay right with answers that agree on every file that is not
forgotten. -/
theorem FilesRight.moved {answers answers' : Answers} {entries : Entries} {changed : List String}
    (right : FilesRight answers entries) (lacks : entries.Lacks changed)
    (last : ∀ path, path.key ∉ changed.map (fun file => (Path.ofText file).key) →
      answers' (.lastCommit path) = answers (.lastCommit path))
    (commitsAfter : ∀ path start, path.key ∉ changed.map (fun file => (Path.ofText file).key) →
      answers' (.commitsAfter path start) = answers (.commitsAfter path start)) :
    FilesRight answers' entries where
  last {path value} shown := by
    by_cases mem : path.key ∈ changed.map fun file => (Path.ofText file).key
    · obtain ⟨file, isChanged, same⟩ := List.mem_map.1 mem
      obtain ⟨bytes, held, -⟩ := shown
      rw [← same, (lacks file isChanged).1] at held
      contradiction
    · rw [last path mem]
      exact right.last shown
  commitsAfter {path starts start commits} shown kept := by
    by_cases mem : path.key ∈ changed.map fun file => (Path.ofText file).key
    · obtain ⟨file, isChanged, same⟩ := List.mem_map.1 mem
      obtain ⟨bytes, held, -⟩ := shown
      rw [← same, (lacks file isChanged).2] at held
      contradiction
    · rw [commitsAfter path start mem]
      exact right.commitsAfter shown kept

namespace Surroundings

variable {σ : Type} {S : Surroundings σ}

/-- Every entry about a file is right. -/
def FilesCurrent (S : Surroundings σ) (state : σ) : Prop :=
  FilesRight (S.answer state) (S.entries state)

/-- The pull of a refresh that starts in this state changes the answers only about the files
that the refresh found changed. -/
structure PullsChanged (S : Surroundings σ) (state : σ) : Prop where
  last : ∀ outcome path, S.result Refresh.prepare state = .ok outcome →
    path.key ∉ outcome.changed.map (fun file => (Path.ofText file).key) →
      S.answer (S.next (.query .pull) (S.after Refresh.prepare state)) (.lastCommit path) =
        S.answer (S.after Refresh.prepare state) (.lastCommit path)
  commitsAfter : ∀ outcome path start, S.result Refresh.prepare state = .ok outcome →
    path.key ∉ outcome.changed.map (fun file => (Path.ofText file).key) →
      S.answer (S.next (.query .pull) (S.after Refresh.prepare state)) (.commitsAfter path start) =
        S.answer (S.after Refresh.prepare state) (.commitsAfter path start)

/-- The states of runs that start with an empty store and in which each pull changes the
answers only about the files that its refresh found changed. -/
abbrev ReachedTruly (S : Surroundings σ) : σ → Prop :=
  S.Reached (fun state => S.entries state = .empty) fun call state =>
    call = .refresh → S.PullsChanged state

theorem FilesCurrent.holding {state : σ} (current : S.FilesCurrent state) :
    S.FilesHold (S.answer state) state :=
  ⟨fun _ _ => rfl, current⟩

theorem Holding.filesCurrent {state : σ} {answers : LocaleWatch.Answers}
    (holding : S.FilesHold answers state) : S.FilesCurrent state where
  last {path value} shown := by
    rw [holding.answers (.lastCommit path) trivial]
    exact holding.entries.last shown
  commitsAfter {path starts start commits} shown kept := by
    rw [holding.answers (.commitsAfter path start) trivial]
    exact holding.entries.commitsAfter shown kept

/-- The pull of a refresh leaves no wrong entry if nothing is kept about the changed files. -/
private theorem triple_pull {state : σ} {outcome : Refresh.Outcome} (pulls : S.PullsChanged state)
    (prepared : S.result Refresh.prepare state = .ok outcome)
    (current : S.FilesCurrent (S.after Refresh.prepare state))
    (lacks : (S.entries (S.after Refresh.prepare state)).Lacks outcome.changed) :
    Attempt.Triple S.handler S.FilesCurrent (· = S.after Refresh.prepare state)
      (Tracking.query .pull) fun _ => S.FilesCurrent := by
  have right : S.FilesCurrent (S.next (.query .pull) (S.after Refresh.prepare state)) := by
    have same : S.entries (S.next (.query .pull) (S.after Refresh.prepare state)) =
        S.entries (S.after Refresh.prepare state) := S.entries_spared rfl
    unfold FilesCurrent
    rw [same]
    exact current.moved lacks (fun path => pulls.last outcome path prepared)
      fun path start => pulls.commitsAfter outcome path start prepared
  refine triple_query ?_ ?_ ?_
  · intro _ same
    subst same
    exact current
  · rintro _ _ rfl _
    exact right
  · rintro _ _ rfl _
    exact right

section

variable (steady : S.SteadyBut (· = .pull) Query.asksFile)
  (byKey : ∀ state, ByKey (S.answer state))
include steady byKey

private theorem sturdy (state : σ) : S.Sturdy (S.FilesHold (S.answer state)) :=
  filesRight_sturdy steady Query.pull_isOrder (byKey state)

/-- What every call other than a refresh passes through is free of wrong entries. -/
theorem triple_call_filesCurrent (call : Call) (other : call ≠ .refresh) {state : σ}
    (current : S.FilesCurrent state) :
    Attempt.Triple S.handler S.FilesCurrent (· = state) call.attempt fun _ => S.FilesCurrent := by
  refine (((sturdy steady byKey state).call call other).throughout
    fun _ => Holding.filesCurrent).mono ?_ fun _ _ holds => holds.1.filesCurrent
  intro _ same
  subst same
  exact current.holding

/-- A refresh never leaves, nor passes through, a state with a wrong entry about a file. -/
theorem triple_refresh_filesCurrent {state : σ} (pulls : S.PullsChanged state)
    (current : S.FilesCurrent state) :
    Attempt.Triple S.handler S.FilesCurrent (· = state) Refresh.run fun _ => S.FilesCurrent := by
  have fetch : ∀ {other}, S.FilesHold (S.answer state) other →
      S.FilesHold (S.answer state) (S.next (.query .fetch) other) := by
    intro other holds
    apply holds.spared steady rfl
    intro order isPull same
    rw [isPull] at same
    cases same
  have prepare : Attempt.Triple S.handler S.FilesCurrent (· = state) Refresh.prepare
      fun outcome last => S.FilesCurrent last ∧ (S.entries last).Lacks outcome.changed := by
    refine ((triple_prepare (sturdy steady byKey state) fetch).throughout
      fun _ => Holding.filesCurrent).mono ?_ fun _ _ holds => ⟨holds.1.filesCurrent, holds.2⟩
    intro _ same
    subst same
    exact current.holding
  have settle (outcome : Refresh.Outcome) : Attempt.Triple S.handler S.FilesCurrent S.FilesCurrent
      (Refresh.settle outcome) fun _ => S.FilesCurrent := by
    intro other holds
    have keeps := keeps_settle (sturdy steady byKey other)
      (filesHold_admits steady (by decide) (by decide)) outcome
    exact ((keeps.throughout fun _ => Holding.filesCurrent).mono (fun _ holds => holds)
      fun _ _ holds => holds.1.filesCurrent) other holds.holding
  rw [Refresh.run_eq]
  refine .bind ?_ settle
  apply triple_bindAt prepare
  intro outcome prepared held
  apply Attempt.Triple.bind (triple_pull pulls prepared held.1 held.2)
  intro _
  exact .pure fun _ holds => holds

/-- In every run, each answer about a file is the one that the repository gives at that
moment: what was kept is never behind. -/
theorem fileAnswers_current {state : σ}
    (reached : S.ReachedTruly state) :
    (∀ path value, S.result (lastCommit path) state = .ok value →
      S.answer (S.after (lastCommit path) state) (.lastCommit path) = .ok value) ∧
    (∀ path start commits, S.result (commitsAfter path start) state = .ok commits →
      S.answer (S.after (commitsAfter path start) state) (.commitsAfter path start) =
        .ok commits) := by
  have current : S.FilesCurrent state := by
    refine reached.always (fun state clear => ?_) fun call state allows current => ?_
    · unfold FilesCurrent
      rw [clear]
      exact .empty
    · by_cases refresh : call = .refresh
      · subst refresh
        exact triple_refresh_filesCurrent steady byKey (allows rfl) current
      · exact triple_call_filesCurrent steady byKey call refresh current
  constructor
  · intro path value told
    have run := keeps_run (keeps_lastCommit steady Query.pull_isOrder
      (byKey state) path) current.holding
    rw [run.1.answers (.lastCommit path) trivial]
    exact run.2 value told
  · intro path start commits told
    have run := keeps_run (keeps_commitsAfter steady Query.pull_isOrder
      (byKey state) path start) current.holding
    rw [run.1.answers (.commitsAfter path start) trivial]
    exact run.2 commits told

end

/-! ### A refresh that changes one file -/

/-- The state after the file was asked for and a refresh was made. -/
def pageRefreshed : Bool × Entries :=
  onePage.after Refresh.run (onePage.after (lastCommit (.ofText "page")) (false, .empty))

private theorem onePage_byKey (state : Bool × Entries) : ByKey (onePage.answer state) where
  last {path other value} same answer := by
    rw [← answer]
    show oneFile state.1 (.lastCommit other) = oneFile state.1 (.lastCommit path)
    simp only [oneFile, same]
  commitsAfter _ answer := answer

private theorem onePage_pullsChanged :
    onePage.PullsChanged (onePage.after (lastCommit (.ofText "page")) (false, .empty)) where
  last outcome path prepared notChanged := by
    have changed : outcome = ⟨[newCommit], ["page"]⟩ := by
      cases prepared
      rfl
    have other : path.key ≠ "page" := by
      intro same
      rw [changed, same] at notChanged
      exact notChanged (by decide +kernel)
    show oneFile true (.lastCommit path) = oneFile false (.lastCommit path)
    simp only [oneFile, other, if_false]
  commitsAfter _ _ _ _ _ := rfl

/-- The kept last commit went with the refresh, and the new one is given. -/
theorem fileAnswers_current_page :
    onePage.result (lastCommit (.ofText "page")) pageRefreshed = .ok (some newCommit) ∧
      onePage.answer (onePage.after (lastCommit (.ofText "page")) pageRefreshed)
        (.lastCommit (.ofText "page")) = .ok (some newCommit) := by
  have start : onePage.ReachedTruly (false, .empty) := .start rfl
  have asked : onePage.ReachedTruly (onePage.after (lastCommit (.ofText "page")) (false, .empty)) :=
    start.ended (.lastCommit (.ofText "page")) nofun
  have reached : onePage.ReachedTruly pageRefreshed :=
    asked.ended .refresh fun _ => onePage_pullsChanged
  have told : onePage.result (lastCommit (.ofText "page")) pageRefreshed = .ok (some newCommit) :=
    rfl
  exact ⟨told, (fileAnswers_current (onePage_steadyBut rfl) onePage_byKey reached).1 _ _ told⟩

end Surroundings

end LocaleWatch
