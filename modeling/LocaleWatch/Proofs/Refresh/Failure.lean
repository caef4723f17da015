import LocaleWatch.Proofs.History.Lookups
import LocaleWatch.Proofs.Refresh.Gathering

/-!
# What a failed refresh leaves behind

A refresh that fails before its pull is done has written down what it saw of the main branch,
and the fork commits of the branches that fresh merges bring in. It looks for these on the
main branch as it is going to be. If a fork commit is fresh itself, then it is not the one that
would be computed now, and since fork commits are kept for ever it is given from then on.

## Main results

* `Surroundings.triple_advance` — what a refresh leaves whenever it fails up to its pull.
* `Surroundings.failedRefresh_unseen_iff` — later lookups see nothing of a failed refresh exactly
  if each fork commit that it wrote down is on the main branch; lookups that use no fork commits
  never see anything of it.
* `Surroundings.failedRefresh_unseen_iff_fresh` — a failed refresh that is seen.
-/

namespace LocaleWatch

open History

section

variable {answers : Answers} {kept entries : Entries} {fresh : List Commit}

theorem Coherent.weaken {forks : Bool} (coherent : Coherent answers forks kept) :
    Coherent answers false kept where
  main := coherent.main
  fork := nofun
  merge := coherent.merge
  last := coherent.last
  commitsAfter := coherent.commitsAfter

/-- In a coherent store, the main branch that a refresh sees is the repository's. -/
theorem Coherent.seenMain {forks : Bool} (coherent : Coherent answers forks kept)
    {commits : List Commit} (seen : SeenMain kept answers commits) :
    answers .mainBranch = .ok commits := by
  rcases seen with ⟨bytes, held, decoded⟩ | ⟨-, told⟩
  · obtain ⟨other, read, told⟩ := coherent.main held
    rw [decoded] at read
    cases read
    exact told
  · exact told

/-- What a refresh gathers is coherent but for fork commits. -/
theorem Gathering.coherent {forks : Bool} (gathering : Gathering kept answers fresh entries)
    (coherent : Coherent answers forks kept) : Coherent answers false entries where
  main held := by
    rcases gathering.main.held held with before | ⟨-, commits, rfl, told⟩
    · exact coherent.main before
    · exact ⟨commits, JsonForm.decode_compact commits, told⟩
  fork := nofun
  merge held := coherent.merge ((gathering.merge _).symm.trans held)
  last held := coherent.last (gathering.last held)
  commitsAfter held := coherent.commitsAfter (gathering.commitsAfter held)

/-- Each fork commit that is kept now and was not kept beforehand is on the main branch. -/
def NewForksOnMain (answers : Answers) (kept entries : Entries) : Prop :=
  ∀ (commit : CommitId) (fork : Commit) (main : List Commit),
    kept forkCategory commit.text = none →
      entries.Shows forkCategory commit.text (some (some fork)) →
        answers .mainBranch = .ok main → (MainBranch.mk main).contains fork.id = true

/-- With the new fork commits on the main branch, what a refresh gathers is coherent. -/
theorem Gathering.coherent_of_forks (gathering : Gathering kept answers fresh entries)
    (coherent : Coherent answers true kept) (onMain : NewForksOnMain answers kept entries) :
    Coherent answers true entries where
  main := (gathering.coherent coherent).main
  fork {commit bytes commits} counts held told off := by
    rcases gathering.fork held with before | ⟨absent, other, value, same, rfl, seen⟩
    · exact coherent.fork counts before told off
    · cases CommitId.text_injective same
      have shown : entries.Shows forkCategory commit.text (some value) :=
        ⟨_, held, JsonForm.decode_compact value⟩
      refine ⟨value, JsonForm.decode_compact value, ?_⟩
      cases seen with
      | kept shown' =>
        obtain ⟨bytes, held', -⟩ := shown'
        rw [absent] at held'
        contradiction
      | @found _ ancestors fork _ main _ asked first =>
        cases told.symm.trans (coherent.seenMain main)
        have on : (MainBranch.mk commits).contains fork.id = true :=
          onMain commit fork commits absent shown told
        exact computed_findFork.2
          ⟨ancestors, fork, asked, MainBranch.firstOn?_of_extendedWith first on, rfl⟩
  merge := (gathering.coherent coherent).merge
  last := (gathering.coherent coherent).last
  commitsAfter := (gathering.coherent coherent).commitsAfter

/-- In a coherent store the fork commit is the first ancestor on the main branch. -/
theorem Coherent.lookedUp_fork_found (coherent : Coherent answers true entries)
    {commits : List Commit} {commit : CommitId} (told : answers .mainBranch = .ok commits)
    (off : (MainBranch.mk commits).contains commit = false) :
    lookedUp answers (History.fork commit) entries =
      computed answers (findFork ⟨commits⟩ commit) := by
  cases held : entries forkCategory commit.text with
  | none => exact coherent.mainRight.lookedUp_fork_missing told off held
  | some bytes =>
    obtain ⟨value, decoded, given⟩ := coherent.fork rfl held told off
    rw [given]
    exact coherent.mainRight.lookedUp_fork_shown told off ⟨bytes, held, decoded⟩

/-- Lookups see nothing of what a refresh has gathered exactly if the new fork commits are on the
main branch; those that use no fork commits see nothing of it. -/
theorem Gathering.unseen_iff (gathering : Gathering kept answers fresh entries)
    (coherent : Coherent answers true kept) :
    (∀ call : Call, call.LooksUp → call.usesForks = false →
      lookedUp answers call.attempt entries = lookedUp answers call.attempt kept) ∧
    ((∀ call : Call, call.LooksUp →
      lookedUp answers call.attempt entries = lookedUp answers call.attempt kept) ↔
        NewForksOnMain answers kept entries) := by
  have butForks : Coherent answers false entries := gathering.coherent coherent
  refine ⟨fun call looksUp without => ?_, fun same => ?_, fun onMain call looksUp => ?_⟩
  · have counts : call.usesForks = true → false = true := fun uses => without.symm.trans uses
    exact (Coherent.settles call looksUp counts _ butForks).trans
      (Coherent.settles call looksUp counts _ coherent.weaken).symm
  · intro commit fork main absent shown told
    cases gathering.seenFork shown with
    | kept shown' =>
      obtain ⟨bytes, held, -⟩ := shown'
      rw [absent] at held
      contradiction
    | found _ seen offExtended asked first =>
      cases told.symm.trans (coherent.seenMain seen)
      have off : (MainBranch.mk main).contains commit = false := by
        rw [MainBranch.contains_extendedWith, Bool.or_eq_false_iff] at offExtended
        exact offExtended.2
      have given : computed answers (findFork ⟨main⟩ commit) = .ok (some fork) := by
        rw [← coherent.lookedUp_fork_found told off]
        exact (same (.fork commit) trivial).symm.trans
          (butForks.mainRight.lookedUp_fork_shown told off shown)
      obtain ⟨ancestors, first, -, isFirst, same⟩ := computed_findFork.1 given
      cases same
      have on := List.find?_some isFirst
      exact on
  · exact (Coherent.settles call looksUp (fun _ => rfl) _
      (gathering.coherent_of_forks coherent onMain)).trans
        (Coherent.settles call looksUp (fun _ => rfl) _ coherent).symm

end

namespace Surroundings

variable {σ : Type} {S : Surroundings σ} {kept : Entries} {answers : LocaleWatch.Answers}

/-! ## A refresh up to its pull -/

/-- The store holds what a refresh gathers for some fresh commits. -/
def GathersSome (S : Surroundings σ) (kept : Entries) (answers : LocaleWatch.Answers)
    (state : σ) : Prop :=
  ∃ fresh, S.Gathers kept answers fresh state

section

variable (steady : S.SteadyBut (· = .pull) Query.IsHistory)
include steady

/-- What a refresh leaves whenever it fails up to its pull. -/
theorem triple_advance :
    Attempt.Triple S.handler (S.GathersSome kept answers)
      (fun state => ∀ fresh, S.Gathers kept answers fresh state) Refresh.advance
      fun _ _ => True := by
  have drop {fresh : List Commit} {category key : String} {state : σ}
      (main : mainBranchCategory ≠ category) (fork : forkCategory ≠ category)
      (merge : mergeCategory ≠ category) (gathers : S.Gathers kept answers fresh state) :
      S.Gathers kept answers fresh (S.next (.delete category key) state) :=
    gathers.delete steady fun gathering => gathering.remove main fork merge key
  refine triple_advance_of (fun early gathers => ?_) (fun fresh => ?_) (fun fresh path => ?_)
    fun gathers refused => ?_
  · apply gathers.spared steady rfl
    rintro order rfl same
    cases same
    rcases early with same | same <;> cases same
  · exact (keeps_changedFiles steady Query.pull_isOrder).mono fun _ _ => trivial
  · apply keeps_forgetFile <;> exact fun gathers => drop (by decide) (by decide) (by decide) gathers
  · apply gathers.spared steady rfl
    rintro order rfl -
    exact refused

/-- A refresh that fails up to its pull fails, and lookups see nothing of it exactly if each fork
commit that it wrote down is on the main branch. Lookups that use no fork commits see nothing of
it in any case. -/
theorem failedRefresh_unseen_iff {state : σ} {error : HistoryError}
    (coherent : Coherent (S.answer state) true (S.entries state))
    (failed : S.result Refresh.advance state = .error error) :
    S.result Refresh.run state = .error error ∧
    (∀ query, query.IsHistory → S.answer (S.after Refresh.run state) query = S.answer state query) ∧
    (∀ call : Call, call.LooksUp → call.usesForks = false →
      lookedUp (S.answer state) call.attempt (S.entries (S.after Refresh.run state)) =
        lookedUp (S.answer state) call.attempt (S.entries state)) ∧
    ((∀ call : Call, call.LooksUp →
      lookedUp (S.answer state) call.attempt (S.entries (S.after Refresh.run state)) =
        lookedUp (S.answer state) call.attempt (S.entries state)) ↔
      NewForksOnMain (S.answer state) (S.entries state)
        (S.entries (S.after Refresh.run state))) := by
  have started : ∀ fresh, S.Gathers (S.entries state) (S.answer state) fresh state :=
    fun _ => ⟨fun _ _ => rfl, .refl⟩
  have stopped := triple_run (triple_advance steady) started
  rw [failed] at stopped
  obtain ⟨fresh, gathers⟩ := stopped
  have result : S.result Refresh.run state = .error error := by
    rw [Refresh.run_eq, result_bind, failed]
    rfl
  have after : S.after Refresh.run state = S.after Refresh.advance state := by
    rw [Refresh.run_eq, after_bind, failed]
  rw [after]
  exact ⟨result, gathers.answers, gathers.entries.unseen_iff coherent⟩

end

/-! ### A branch off a fresh commit -/

/-- A main branch with a commit `base`, on top of which a commit `next` and the merge of a branch
that left it there have been fetched. No pull succeeds. -/
def unpulled : LocaleWatch.Answers
  | .mainBranch => .ok [namedCommit ⟨"base", by decide⟩]
  | .freshCommits => .ok [namedCommit ⟨"merge", by decide⟩, namedCommit ⟨"next", by decide⟩]
  | .filesIn commit => .ok (if commit.text = "next" then ["page"] else [])
  | .parents _ => .ok [⟨"next", by decide⟩, ⟨"branch", by decide⟩]
  | .ancestors _ => .ok [namedCommit ⟨"branch", by decide⟩, namedCommit ⟨"next", by decide⟩,
      namedCommit ⟨"base", by decide⟩]
  | .filesBetween _ _ => .ok ["other"]
  | .mainHead => .ok (some ⟨"base", by decide⟩)
  | .lastCommit _ => .ok none
  | .commitsAfter _ _ | .mergePoints _ | .files _ => .ok []
  | .fileExists _ => .ok true
  | .fetch => .ok ()
  | .pull => .error (.cancelled "pull")

/-- The fork commit of the branch is another one after the refresh has failed. -/
theorem failedRefresh_unseen_iff_fresh :
    lookedUp unpulled (History.fork ⟨"branch", by decide⟩) .empty =
        .ok (some (namedCommit ⟨"base", by decide⟩)) ∧
      lookedUp unpulled (History.fork ⟨"branch", by decide⟩) (leftBy unpulled Refresh.run .empty) =
        .ok (some (namedCommit ⟨"next", by decide⟩)) ∧
      ¬ NewForksOnMain unpulled .empty (leftBy unpulled Refresh.run .empty) := by
  have steady : (settled unpulled).SteadyBut (· = .pull) Query.IsHistory :=
    calm_steadyBut fun _ _ _ _ _ => rfl
  have failed : (settled unpulled).result Refresh.advance ((), .empty) =
      .error (.repository (.cancelled "pull")) := rfl
  have before : lookedUp unpulled (History.fork ⟨"branch", by decide⟩) .empty =
      .ok (some (namedCommit ⟨"base", by decide⟩)) := rfl
  have later : lookedUp unpulled (History.fork ⟨"branch", by decide⟩)
      (leftBy unpulled Refresh.run .empty) = .ok (some (namedCommit ⟨"next", by decide⟩)) := rfl
  obtain ⟨-, -, -, unseen⟩ := failedRefresh_unseen_iff steady .empty failed
  refine ⟨before, later, fun onMain => ?_⟩
  have same : lookedUp unpulled (History.fork ⟨"branch", by decide⟩)
        (leftBy unpulled Refresh.run .empty) =
      lookedUp unpulled (History.fork ⟨"branch", by decide⟩) .empty :=
    unseen.2 onMain (.fork ⟨"branch", by decide⟩) trivial
  rw [before, later] at same
  exact absurd (Option.some.inj (Except.ok.inj same)) (by decide)

end Surroundings

end LocaleWatch
