import LocaleWatch.Proofs.History.Lookups
import LocaleWatch.Proofs.Refresh.Growth

/-!
# Kept merge commits are the current ones

That a merge was found is kept for ever, that none was found is looked into again. Both are right
as long as a pull only appends to lists of merge points, and puts no commit on the main branch
that was listed before: then the first merge point on the main branch stays the first one, and a
branch that was not merged may be merged now.

## Main results

* `MainBranch.firstOn?_of_grown` — the first merge point stays the first one.
* `Surroundings.Grown.holds` — each merge commit that is kept is the one that would be found.
* `Surroundings.merge_current` — in every run, the merge commit that is given is the current one.
* `Surroundings.merge_current_merged` — a branch that was not merged when it was first asked about.
-/

namespace LocaleWatch

open History

/-- With commits on top of the main branch that are none of some others, and more of these, the
first of them on the main branch is the same. -/
theorem MainBranch.firstOn?_of_grown {main fresh points more : List Commit} {merge : Commit}
    (found : (MainBranch.mk main).firstOn? points = some merge)
    (apart : ∀ point ∈ points, ∀ new ∈ fresh, new.id ≠ point.id) :
    (MainBranch.mk (fresh ++ main)).firstOn? (points ++ more) = some merge := by
  have same : ∀ point ∈ points, (MainBranch.mk (fresh ++ main)).contains point.id =
      (MainBranch.mk main).contains point.id := by
    intro point mem
    have notFresh : fresh.any (·.id = point.id) = false := by
      rw [List.any_eq_false]
      intro new isNew
      simpa using apart point mem new isNew
    have split := MainBranch.contains_extendedWith ⟨main⟩ fresh point.id
    rw [notFresh, Bool.false_or] at split
    exact split
  obtain ⟨on, before, after, rfl, notOn⟩ := List.find?_eq_some_iff_append.1 found
  refine List.find?_eq_some_iff_append.2 ⟨?_, before, after ++ more, by simp, fun point mem => ?_⟩
  · rw [same merge (by simp)]
    exact on
  · rw [same point (by simp [mem])]
    exact notOn point mem

/-- Whether a query tells where branches join the main branch. -/
def Query.asksMerges : Query → Prop
  | .mainBranch | .mergePoints _ => True
  | _ => False

/-- A merge commit of a commit: the first of its merge points on the main branch. -/
def MergeOn (answers : Answers) (commit : CommitId) (merge : Commit) : Prop :=
  ∃ main points, answers .mainBranch = .ok main ∧ answers (.mergePoints commit) = .ok points ∧
    (MainBranch.mk main).firstOn? points = some merge

/-- Each merge that is kept is the one that would be found; that none was found says nothing. -/
def MergesRight (answers : Answers) (entries : Entries) : Prop :=
  ∀ (commit : CommitId) bytes, entries mergeCategory commit.text = some bytes → ∃ value,
    JsonForm.decode? (Option Commit) bytes = some value ∧
      ∀ merge, value = some merge → MergeOn answers commit merge

namespace MergesRight

variable {answers answers' : Answers} {entries : Entries}

theorem within : Entries.Within mergeCategory (MergesRight answers) :=
  fun _ _ same right commit bytes held => right commit bytes ((same _).symm.trans held)

theorem shown (right : MergesRight answers entries) {commit : CommitId} {merge : Commit}
    (shows : entries.Shows mergeCategory commit.text (some (some merge))) :
    MergeOn answers commit merge := by
  obtain ⟨bytes, held, read⟩ := shows
  obtain ⟨value, decoded, isRight⟩ := right commit bytes held
  exact isRight merge (Option.some.inj (decoded.symm.trans read))

theorem put (right : MergesRight answers entries) {main points : List Commit} {commit : CommitId}
    (told : answers .mainBranch = .ok main) (listed : answers (.mergePoints commit) = .ok points) :
    MergesRight answers (entries.put mergeCategory commit.text
      (Text.bytes (JsonForm.compact ((MainBranch.mk main).firstOn? points)))) := by
  intro other bytes held
  rcases Entries.put_cases held with ⟨-, same, rfl⟩ | held
  · cases CommitId.text_injective same
    exact ⟨_, JsonForm.decode_compact _, fun merge found => ⟨main, points, told, listed, found⟩⟩
  · exact right other bytes held

/-- A pull leaves them right. -/
theorem pulled (right : MergesRight answers entries) {fresh : List Commit}
    (grown : ∀ main, answers .mainBranch = .ok main → answers' .mainBranch = .ok (fresh ++ main))
    (longer : ∀ commit points, answers (.mergePoints commit) = .ok points →
      (∃ more, answers' (.mergePoints commit) = .ok (points ++ more)) ∧
        ∀ point ∈ points, ∀ new ∈ fresh, new.id ≠ point.id) :
    MergesRight answers' entries := by
  intro commit bytes held
  obtain ⟨value, decoded, isRight⟩ := right commit bytes held
  refine ⟨value, decoded, fun merge same => ?_⟩
  obtain ⟨main, points, told, listed, found⟩ := isRight merge same
  obtain ⟨⟨more, listed'⟩, apart⟩ := longer commit points listed
  exact ⟨fresh ++ main, points ++ more, grown main told, listed',
    MainBranch.firstOn?_of_grown found apart⟩

/-- Off the main branch, a lookup where nothing is refused gives the first merge point on the main
branch. -/
theorem lookedUp (merges : MergesRight answers entries) (right : MainRight answers entries)
    {main points : List Commit} {commit : CommitId} (told : answers .mainBranch = .ok main)
    (off : (MainBranch.mk main).contains commit = false)
    (listed : answers (.mergePoints commit) = .ok points) :
    LocaleWatch.lookedUp answers (History.merge commit) entries =
      .ok ((MainBranch.mk main).firstOn? points) := by
  have computed : computed answers (findMerge ⟨main⟩ commit) =
      .ok ((MainBranch.mk main).firstOn? points) :=
    computed_findMerge.2 ⟨points, listed, rfl⟩
  cases entry : entries mergeCategory commit.text with
  | none =>
    have absent : entries.Shows mergeCategory commit.text (none : Option (Option Commit)) := entry
    rw [right.lookedUp_merge_missing told off absent nofun]
    exact computed
  | some bytes =>
    obtain ⟨value, decoded, isRight⟩ := merges commit bytes entry
    have shown : entries.Shows mergeCategory commit.text (some value) := ⟨bytes, entry, decoded⟩
    cases value with
    | none =>
      rw [right.lookedUp_merge_missing told off shown (by rintro value ⟨⟩; rfl)]
      exact computed
    | some merge =>
      obtain ⟨main', points', told', listed', found⟩ := isRight merge rfl
      cases told.symm.trans told'
      cases listed.symm.trans listed'
      rw [found]
      exact right.lookedUp_merge_shown told off shown

end MergesRight

namespace Surroundings

variable {σ : Type} {S : Surroundings σ} {answers : LocaleWatch.Answers} {state : σ}

/-- How pulls lengthen lists of merge points: nothing else changes these, and a pull that is carried
out appends to each list. No fresh commit is listed before it is pulled. -/
structure PointsGrow (S : Surroundings σ) : Prop where
  steady : S.SteadyBut (· = .pull) fun query => ∃ commit, query = .mergePoints commit
  pull : ∀ {state : σ} {fresh points : List Commit} {commit : CommitId}, S.Answers .pull state →
    S.answer state .freshCommits = .ok fresh → S.answer state (.mergePoints commit) = .ok points →
      (∃ more,
        S.answer (S.next (.query .pull) state) (.mergePoints commit) = .ok (points ++ more)) ∧
        ∀ point ∈ points, ∀ new ∈ fresh, new.id ≠ point.id

/-- The states of runs from an empty store in which every refresh gives an outcome or fails up to
its pull. -/
inductive Grown (S : Surroundings σ) : σ → Prop where
  | start {state : σ} (clear : S.entries state = .empty) : Grown S state
  | step {state next : σ} {fresh : List Commit} (before : Grown S state)
    (step : S.Step True state fresh next) : Grown S next

/-- The kept merges are right. -/
abbrev MergesHold (S : Surroundings σ) (answers : LocaleWatch.Answers) : σ → Prop :=
  S.MainHolds Query.asksMerges answers (MergesRight answers)

variable (moves : S.MovesByPull) (grow : S.PointsGrow)
include moves grow

private theorem merges_steady : S.SteadyBut (· = .pull) Query.asksMerges := by
  intro request state query concerned idle
  cases query with
  | mainBranch => exact moves.main request state .mainBranch rfl idle
  | mergePoints commit => exact grow.steady request state (.mergePoints commit) ⟨commit, rfl⟩ idle
  | _ => cases concerned

private theorem keeps_mergeHeld {main : List Commit} (told : answers .mainBranch = .ok main)
    (commit : CommitId) :
    Attempt.Keeps S.handler (S.MergesHold answers) (mergeWithin ⟨main⟩ commit)
      (OffMain ⟨main⟩ commit fun value => ∀ points, answers (.mergePoints commit) = .ok points →
        value = (MainBranch.mk main).firstOn? points) := by
  refine keeps_mergeFound (merges_steady moves grow) Query.pull_isOrder trivial
    (fun both shows points listed => ?_) fun listed => ⟨fun points listed' => ?_, fun both => ?_⟩
  · obtain ⟨main', points', told', listed', found⟩ := both.2.shown shows
    cases told.symm.trans told'
    cases listed.symm.trans listed'
    exact found.symm
  · cases listed.symm.trans listed'
    rfl
  · exact ⟨both.1.congr (Entries.put_of_category (by decide)), both.2.put told listed⟩

private theorem keeps_forkAside (fresh : List Commit) (main : MainBranch) (commit : CommitId) :
    Attempt.Keeps S.handler (S.MergesHold answers) (forkWithin (main.extendedWith fresh) commit)
      fun _ => True := by
  have steady := merges_steady moves grow
  exact keeps_forkLookup (holding_undisturbed steady Query.pull_isOrder)
    (mainHolds_admits steady MergesRight.within (by decide) (by decide)) _ commit

private theorem merges_sustains :
    S.Sustains (S.MergesHold answers) fun main => answers .mainBranch = .ok main.commits :=
  mainHolds_sustains (merges_steady moves grow) Query.pull_isOrder trivial (.inr rfl)
    MergesRight.within (fun main commit _ => keeps_forkAside moves grow [] main commit)
    fun _ commit told => (keeps_mergeHeld moves grow told commit).mono fun _ _ => trivial

/-- A refresh that gives an outcome leaves the kept merges right for the main branch as it is
then. -/
private theorem refresh_mergesHold {outcome : Refresh.Outcome} (holds : S.MergesHold answers state)
    (told : S.result Refresh.run state = .ok outcome) :
    ∃ answers', S.MergesHold answers' (S.after Refresh.run state) := by
  obtain ⟨before, ready, pulled, fresh, carry⟩ :=
    refresh_pulls (merges_steady moves grow) trivial (.inr rfl) (fun _ => MergesRight.within)
      (fun fresh main commit _ => keeps_forkAside moves grow fresh main commit) moves
      (fun _ => holds) told
  obtain ⟨fresh', told', grown⟩ := moves.pull pulled
  cases fresh.symm.trans told'
  have right : MergesRight (S.answer (S.next (.query .pull) before)) (S.entries before) := by
    apply ready.entries.2.pulled
    · intro main told
      exact grown main ((ready.answers .mainBranch trivial).trans told)
    · intro commit points listed
      exact grow.pull pulled fresh ((ready.answers (.mergePoints commit) trivial).trans listed)
  exact ⟨_, carry _ MergesRight.within right⟩

/-- Each merge commit that is kept is the one that would be found. -/
theorem Grown.holds (grown : S.Grown state) : ∃ answers, S.MergesHold answers state := by
  induction grown with
  | @start state clear =>
    refine ⟨S.answer state, fun _ _ => rfl, ?_⟩
    rw [clear]
    exact ⟨.refl, nofun⟩
  | step before step ih =>
    obtain ⟨answers, holds⟩ := ih
    cases step with
    | ended call query =>
      exact ⟨answers, (keeps_run ((merges_sustains moves grow).call call query) holds).1⟩
    | stopped call query count =>
      exact ⟨answers, keeps_stopped ((merges_sustains moves grow).call call query) holds count⟩
    | refreshed told => exact refresh_mergesHold moves grow holds told
    | failed may told =>
      obtain ⟨fresh, left⟩ :=
        advance_holds (merges_steady moves grow) trivial (.inr rfl) (fun _ => MergesRight.within)
          (fun fresh main commit _ => keeps_forkAside moves grow fresh main commit)
          (fun _ => holds) told
      exact ⟨answers, left⟩

omit moves grow in
/-- What holds of some answers that the repository gives holds of those of a state. -/
private theorem MergesHold.current (holds : S.MergesHold answers state) :
    S.MergesHold (S.answer state) state := by
  have main : ∀ main, answers .mainBranch = .ok main →
      S.answer state .mainBranch = .ok ([] ++ main) :=
    fun _ told => (holds.answers .mainBranch trivial).trans told
  refine ⟨fun _ _ => rfl, holds.entries.1.moved main, ?_⟩
  refine holds.entries.2.pulled main fun commit points listed => ⟨⟨[], ?_⟩, nofun⟩
  rw [List.append_nil]
  exact (holds.answers (.mergePoints commit) trivial).trans listed

private theorem keeps_mergeGiven {main : List Commit} (told : answers .mainBranch = .ok main)
    (commit : CommitId) :
    Attempt.Keeps S.handler (S.MergesHold answers) (History.merge commit)
      (OffMain ⟨main⟩ commit fun value => ∀ points, answers (.mergePoints commit) = .ok points →
        value = (MainBranch.mk main).firstOn? points) := by
  apply (merges_sustains moves grow).main.bind
  intro other told'
  cases told.symm.trans told'
  exact keeps_mergeHeld moves grow told commit

/-- Wherever a run stands, the merge commit of a commit on the main branch is given as none, and
that of another commit as the first of its merge points that is on the main branch, whatever was
found and kept before. -/
theorem merge_current (grown : S.Grown state) {main : List Commit}
    (told : S.answer state .mainBranch = .ok main) (commit : CommitId) :
    ((MainBranch.mk main).contains commit = true →
      lookedUp (S.answer state) (History.merge commit) (S.entries state) = .ok none ∧
        ∀ value, S.result (History.merge commit) state = .ok value → value = none) ∧
    ((MainBranch.mk main).contains commit = false → ∀ points,
      S.answer state (.mergePoints commit) = .ok points →
        lookedUp (S.answer state) (History.merge commit) (S.entries state) =
            .ok ((MainBranch.mk main).firstOn? points) ∧
          ∀ value, S.result (History.merge commit) state = .ok value →
            value = (MainBranch.mk main).firstOn? points) := by
  obtain ⟨answers, held⟩ := grown.holds moves grow
  have holds := MergesHold.current held
  have right : MainRight (S.answer state) (S.entries state) := holds.entries.1.mainRight
  have result := (keeps_run (keeps_mergeGiven moves grow told commit) holds).2
  constructor
  · intro on
    exact ⟨right.lookedUp_merge_on told on, fun value given => (result value given).of_on on⟩
  · intro off points listed
    exact ⟨holds.entries.2.lookedUp right told off listed,
      fun value given => (result value given).of_off off points listed⟩

omit moves grow in
private theorem branched_pointsGrow : (pulling branched).PointsGrow where
  steady := pulling_steadyBut rfl
  pull {state fresh points commit} _ told listed := by
    obtain ⟨pulled, entries⟩ := state
    cases pulled with
    | false =>
      cases listed
      exact ⟨⟨[mergeCommit], rfl⟩, nofun⟩
    | true =>
      cases told
      cases listed
      exact ⟨⟨[], rfl⟩, nofun⟩

/-- The state after it was kept that the branch is not merged and a refresh has pulled its merge. -/
def branchMerged : Bool × Entries :=
  (pulling branched).after Refresh.run
    ((pulling branched).after (History.merge branchCommit.id) (false, .empty))

omit moves grow in
/-- The merge is found although it was kept that there was none. -/
theorem merge_current_merged :
    (pulling branched).result (History.merge branchCommit.id) (false, .empty) = .ok none ∧
      lookedUp (branched true) (History.merge branchCommit.id) branchMerged.2 =
        .ok (some mergeCommit) := by
  have start : (pulling branched).Grown (false, .empty) := .start rfl
  have kept := start.step (.ended (.merge branchCommit.id) nofun)
  have told : (pulling branched).result Refresh.run
      ((pulling branched).after (History.merge branchCommit.id) (false, .empty)) =
        .ok ⟨[mergeCommit, nextCommit], ["page"]⟩ := rfl
  have grown : (pulling branched).Grown branchMerged := kept.step (.refreshed told)
  have current := merge_current branched_movesByPull branched_pointsGrow grown rfl branchCommit.id
  exact ⟨rfl, (current.2 rfl [mergeCommit] rfl).1⟩

end Surroundings

end LocaleWatch
