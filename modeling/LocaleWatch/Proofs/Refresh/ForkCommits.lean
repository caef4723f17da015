import LocaleWatch.Proofs.History.Lookups
import LocaleWatch.Proofs.Refresh.Growth

/-!
# How right a kept fork commit stays

A fork commit is kept for ever, on the ground that the point at which a branch left the main branch
does not move. It moves if the main branch is put forward to a commit of that very branch: then
that commit is the nearest one on the main branch, and the one kept before is given nevertheless.

To say when this happens, runs are recorded: beside the state there is for each commit what was
pulled since its fork commit was kept.

## Main results

* `Surroundings.Recalled.holds` — each kept fork commit is the one of the main branch without the
  commits that are recorded.
* `Surroundings.fork_nearest_iff` — the fork commit that is given is the nearest one exactly if that
  one is not among the commits pulled since.
* `Surroundings.fork_nearest_iff_forwarded` — a run in which it is not the nearest one.
-/

namespace LocaleWatch

open History

/-- Whether a query tells where branches leave the main branch. -/
def Query.asksForks : Query → Prop
  | .mainBranch | .ancestors _ => True
  | _ => False

/-- What was pulled since a fork commit was kept, once these commits have been pulled, too. -/
def pulledSince (kept : Entries) (fresh : List Commit) (since : CommitId → List Commit)
    (commit : CommitId) : List Commit :=
  match kept forkCategory commit.text with
  | some _ => fresh ++ since commit
  | none => []

namespace ForksSince

variable {answers answers' : Answers} {fresh : List Commit} {since : CommitId → List Commit}
  {entries : Entries}

theorem within : Entries.Within forkCategory (ForksSince answers fresh since) :=
  fun _ _ same forks => forks.congr same

/-- Without anything pulled the record stays as it is. -/
theorem pulledSince_nil (forks : ForksSince answers fresh since entries) :
    pulledSince entries [] since = since := by
  funext commit
  unfold pulledSince
  cases held : entries forkCategory commit.text with
  | some bytes => rfl
  | none => exact (forks.absent held).symm

/-- Before a pull, kept fork commits are behind the main branch as it is going to be. -/
theorem ahead (forks : ForksSince answers [] since entries) (fresh : List Commit) :
    ForksSince answers fresh (pulledSince entries fresh since) entries where
  held {commit bytes} held := by
    obtain ⟨main, older, fork, told, split, isFork, decoded⟩ := forks.held held
    refine ⟨main, older, fork, told, ?_, isFork, decoded⟩
    have before : main = since commit ++ older := split
    unfold pulledSince
    rw [held, before, List.append_assoc]
  absent {commit} none := by
    unfold pulledSince
    rw [none]

/-- After the pull they are behind the main branch as it is. -/
theorem pulled (forks : ForksSince answers fresh since entries)
    (grown : ∀ main, answers .mainBranch = .ok main → answers' .mainBranch = .ok (fresh ++ main))
    (fixed : ∀ commit, answers' (.ancestors commit) = answers (.ancestors commit)) :
    ForksSince answers' [] since entries where
  held held := by
    obtain ⟨main, older, fork, told, split, ⟨chain, listed, first⟩, decoded⟩ := forks.held held
    exact ⟨fresh ++ main, older, fork, grown main told, split,
      ⟨chain, (fixed _).trans listed, first⟩, decoded⟩
  absent := forks.absent

/-- Off the main branch, a lookup where nothing is refused gives the nearest ancestor on an earlier
main branch. -/
theorem lookedUp (forks : ForksSince answers [] since entries) (right : MainRight answers entries)
    {main chain : List Commit} {commit : CommitId} {nearest : Commit}
    (told : answers .mainBranch = .ok main) (off : (MainBranch.mk main).contains commit = false)
    (listed : answers (.ancestors commit) = .ok chain)
    (first : (MainBranch.mk main).firstOn? chain = some nearest) :
    ∃ older given, main = since commit ++ older ∧
      (MainBranch.mk older).firstOn? chain = some given ∧
      LocaleWatch.lookedUp answers (History.fork commit) entries = .ok (some given) := by
  cases entry : entries forkCategory commit.text with
  | none =>
    refine ⟨main, nearest, ?_, first, ?_⟩
    · rw [forks.absent entry, List.nil_append]
    · rw [right.lookedUp_fork_missing told off entry]
      exact computed_findFork.2 ⟨chain, nearest, listed, first, rfl⟩
  | some bytes =>
    obtain ⟨main', older, given, told', split, ⟨chain', listed', isFirst⟩, decoded⟩ :=
      forks.held entry
    cases told.symm.trans told'
    cases listed.symm.trans listed'
    exact ⟨older, given, split, isFirst,
      right.lookedUp_fork_shown told off ⟨bytes, entry, decoded⟩⟩

end ForksSince

namespace Surroundings

variable {σ : Type} {S : Surroundings σ} {answers : LocaleWatch.Answers}
  {since : CommitId → List Commit} {state : σ}

/-- Runs from an empty store in which every refresh gives an outcome, with a record of what was
pulled since the fork commit of each commit was kept. -/
inductive Recalled (S : Surroundings σ) : σ → (CommitId → List Commit) → Prop where
  | start {state : σ} (clear : S.entries state = .empty) : Recalled S state fun _ => []
  | step {state next : σ} {since : CommitId → List Commit} {fresh : List Commit}
    (before : Recalled S state since) (step : S.Step False state fresh next) :
    Recalled S next (pulledSince (S.entries state) fresh since)

/-- The kept fork commits are behind by what is recorded. -/
abbrev ForksHold (S : Surroundings σ) (answers : LocaleWatch.Answers) (fresh : List Commit)
    (since : CommitId → List Commit) : σ → Prop :=
  S.MainHolds Query.asksForks answers (ForksSince answers fresh since)

variable (moves : S.MovesByPull)
  (fixed : ∀ request state commit,
    S.answer (S.next request state) (.ancestors commit) = S.answer state (.ancestors commit))
include moves fixed

private theorem forks_steady : S.SteadyBut (· = .pull) Query.asksForks := by
  intro request state query concerned idle
  cases query with
  | mainBranch => exact moves.main request state .mainBranch rfl idle
  | ancestors commit => exact fixed request state commit
  | _ => cases concerned

private theorem keeps_forkHeld {main : MainBranch} {fresh : List Commit}
    (told : answers .mainBranch = .ok main.commits) (commit : CommitId) :
    Attempt.Keeps S.handler (S.ForksHold answers fresh since)
      (forkWithin (main.extendedWith fresh) commit)
      (OffMain (main.extendedWith fresh) commit
        (ForkBefore answers (fresh ++ main.commits) (since commit) commit)) :=
  keeps_forkSince (forks_steady moves fixed) Query.pull_isOrder fresh since trivial told
    (fun both => both.2)
    fun both forks => ⟨both.1.congr (Entries.put_of_category (by decide)), forks⟩

private theorem forks_sustains :
    S.Sustains (S.ForksHold answers [] since) fun main =>
      answers .mainBranch = .ok main.commits := by
  have steady := forks_steady moves fixed
  have quiet : S.Undisturbed (S.ForksHold answers [] since) :=
    holding_undisturbed steady Query.pull_isOrder
  have admits : S.Admits (S.ForksHold answers [] since) mergeCategory :=
    mainHolds_admits steady ForksSince.within (by decide) (by decide)
  exact mainHolds_sustains steady Query.pull_isOrder trivial (.inl rfl) ForksSince.within
    (fun main commit told => (keeps_forkHeld moves fixed told commit).mono fun _ _ => trivial)
    fun main commit _ => keeps_mergeLookup quiet admits main commit

/-- What a refresh that gives an outcome brings, it puts on top of the main branch, and kept fork
commits fall behind by that. -/
private theorem refresh_forksHold {outcome : Refresh.Outcome}
    (holds : S.ForksHold answers [] since state) (told : S.result Refresh.run state = .ok outcome) :
    ∃ answers', S.ForksHold answers' [] (pulledSince (S.entries state) outcome.fresh since)
      (S.after Refresh.run state) := by
  have start (fresh : List Commit) :
      S.ForksHold answers fresh (pulledSince (S.entries state) fresh since) state :=
    ⟨holds.answers, holds.entries.1, holds.entries.2.ahead fresh⟩
  obtain ⟨before, ready, pulled, fresh, carry⟩ :=
    refresh_pulls (forks_steady moves fixed) trivial (.inl rfl) (fun _ => ForksSince.within)
      (fun fresh main commit told =>
        (keeps_forkHeld moves fixed told commit).mono fun _ _ => trivial)
      moves start told
  obtain ⟨fresh', told', grown⟩ := moves.pull pulled
  cases fresh.symm.trans told'
  refine ⟨_, carry _ ForksSince.within
    (ready.entries.2.pulled (fun main told => ?_) fun commit => ?_)⟩
  · exact grown main ((ready.answers .mainBranch trivial).trans told)
  · exact (fixed _ _ commit).trans (ready.answers (.ancestors commit) trivial)

/-- Each kept fork commit is the one of the main branch without the commits that are recorded. -/
theorem Recalled.holds (recalled : S.Recalled state since) :
    ∃ answers, S.ForksHold answers [] since state := by
  induction recalled with
  | @start state clear =>
    refine ⟨S.answer state, fun _ _ => rfl, ?_⟩
    rw [clear]
    exact ⟨.refl, .empty⟩
  | step before step ih =>
    obtain ⟨answers, holds⟩ := ih
    cases step with
    | ended call query =>
      rw [holds.entries.2.pulledSince_nil]
      exact ⟨answers, (keeps_run ((forks_sustains moves fixed).call call query) holds).1⟩
    | stopped call query count =>
      rw [holds.entries.2.pulledSince_nil]
      exact ⟨answers, keeps_stopped ((forks_sustains moves fixed).call call query) holds count⟩
    | refreshed told => exact refresh_forksHold moves fixed holds told
    | failed may => contradiction

omit moves fixed in
/-- What holds of some answers that the repository gives holds of those of a state. -/
private theorem ForksHold.current (holds : S.ForksHold answers [] since state) :
    S.ForksHold (S.answer state) [] since state := by
  refine ⟨fun _ _ => rfl, holds.entries.1.moved fun main told => ?_,
    holds.entries.2.pulled (fun main told => ?_) fun commit => ?_⟩
  · exact (holds.answers .mainBranch trivial).trans told
  · exact (holds.answers .mainBranch trivial).trans told
  · exact holds.answers (.ancestors commit) trivial

private theorem keeps_forkGiven {main : List Commit} (told : answers .mainBranch = .ok main)
    (commit : CommitId) :
    Attempt.Keeps S.handler (S.ForksHold answers [] since) (History.fork commit)
      (OffMain ⟨main⟩ commit (ForkBefore answers main (since commit) commit)) := by
  apply (forks_sustains moves fixed).main.bind
  intro other told'
  cases told.symm.trans told'
  exact keeps_forkHeld moves fixed told commit

/-- Wherever a run stands, the fork commit of a commit on the main branch is given as none. Of a
commit off the main branch it is the nearest ancestor on the main branch as it was when the fork
commit was kept. This is the nearest one on the main branch exactly if the nearest one was there
already. -/
theorem fork_nearest_iff (recalled : S.Recalled state since) {main : List Commit}
    (told : S.answer state .mainBranch = .ok main) (commit : CommitId) :
    ((MainBranch.mk main).contains commit = true →
      lookedUp (S.answer state) (History.fork commit) (S.entries state) = .ok none ∧
        ∀ value, S.result (History.fork commit) state = .ok value → value = none) ∧
    ((MainBranch.mk main).contains commit = false → ∀ chain nearest,
      S.answer state (.ancestors commit) = .ok chain →
        (MainBranch.mk main).firstOn? chain = some nearest →
          ∃ older given, main = since commit ++ older ∧
            (MainBranch.mk older).firstOn? chain = some given ∧
            lookedUp (S.answer state) (History.fork commit) (S.entries state) = .ok (some given) ∧
            (∀ value, S.result (History.fork commit) state = .ok value → value = some given) ∧
            (given = nearest ↔ (MainBranch.mk older).contains nearest.id = true)) := by
  obtain ⟨answers, held⟩ := recalled.holds moves fixed
  have holds := ForksHold.current held
  obtain ⟨seen, forks⟩ := holds.entries
  have right : MainRight (S.answer state) (S.entries state) := seen.mainRight
  have result := (keeps_run (keeps_forkGiven moves fixed told commit) holds).2
  constructor
  · intro on
    exact ⟨right.lookedUp_fork_on told on, fun value given => (result value given).of_on on⟩
  · intro off chain nearest listed first
    obtain ⟨older, given, split, isFirst, lookup⟩ := forks.lookedUp right told off listed first
    refine ⟨older, given, split, isFirst, lookup, fun value told' => ?_,
      fun same => ?_, fun on => ?_⟩
    · obtain ⟨older', fork, split', isFork, same⟩ := (result value told').of_off off
      cases List.append_cancel_left (split.symm.trans split')
      rw [same, isFork.unique ⟨chain, listed, isFirst⟩]
    · have on := List.find?_some isFirst
      rw [← same]
      exact on
    · rw [split] at first
      have again := MainBranch.firstOn?_of_extendedWith first on
      exact Option.some.inj (isFirst.symm.trans again)

/-- The state after the fork commit of the branch was kept and a refresh has put the main branch
forward to `nextCommit`, which is the branch's own. -/
def forwarded : Bool × Entries :=
  (pulling branched).after Refresh.run
    ((pulling branched).after (History.fork branchCommit.id) (false, .empty))

omit moves fixed in
/-- The nearest commit on the main branch is `nextCommit` then, but another one is given. -/
theorem fork_nearest_iff_forwarded :
    (MainBranch.mk [mergeCommit, nextCommit, baseCommit]).firstOn?
        [branchCommit, nextCommit, baseCommit] = some nextCommit ∧
      (pulling branched).result (History.fork branchCommit.id) forwarded = .ok (some baseCommit) ∧
      baseCommit ≠ nextCommit := by
  have start : (pulling branched).Recalled (false, .empty) fun _ => [] := .start rfl
  have kept := start.step (.ended (.fork branchCommit.id) nofun)
  have told : (pulling branched).result Refresh.run
      ((pulling branched).after (History.fork branchCommit.id) (false, .empty)) =
        .ok ⟨[mergeCommit, nextCommit], ["page"]⟩ := rfl
  have recalled := kept.step (.refreshed told)
  have given : (pulling branched).result (History.fork branchCommit.id) forwarded =
      .ok (some baseCommit) := rfl
  have first : (MainBranch.mk [mergeCommit, nextCommit, baseCommit]).firstOn?
      [branchCommit, nextCommit, baseCommit] = some nextCommit := rfl
  obtain ⟨older, fork, split, -, -, only, nearest⟩ :=
    (fork_nearest_iff branched_movesByPull (fun _ _ _ => rfl) recalled rfl branchCommit.id).2 rfl
      _ nextCommit rfl first
  have isBase : some baseCommit = some fork := only _ given
  cases isBase
  have parts : [mergeCommit, nextCommit] ++ [baseCommit] = [mergeCommit, nextCommit] ++ older :=
    split
  have isOlder : [baseCommit] = older := List.append_cancel_left parts
  refine ⟨first, given, fun same => ?_⟩
  have on := nearest.1 same
  rw [← isOlder] at on
  contradiction

end Surroundings

end LocaleWatch
