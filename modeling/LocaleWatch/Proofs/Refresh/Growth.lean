import LocaleWatch.Proofs.History.Branches
import LocaleWatch.Proofs.Refresh.MainBranch

/-!
# What is kept while the main branch grows

Entries for fork and merge commits outlive refreshes: a pull puts commits on top of the main
branch, and what was kept before it is read after it. A run is taken in steps, each a query or a
refresh, together with the commits that a refresh has brought. What holds of the kept commits
before the pull has to be carried over it; the kept main branch takes care of itself as long as no
refresh fails after its pull.

## Main results

* `Surroundings.mainHolds_sustains` — queries keep a property of the kept fork or merge commits if
  the lookups of these do.
* `Surroundings.refresh_pulls` — a refresh that is refused nothing pulls what it found fresh, and
  what holds of the kept commits right after the pull holds in the end.
* `Surroundings.advance_holds` — what a refresh leaves that fails up to its pull.
-/

namespace LocaleWatch

open History

/-- A property of the entries of one category. -/
def Entries.Within (category : String) (property : Entries → Prop) : Prop :=
  ∀ entries other : Entries, (∀ key, other category key = entries category key) →
    property entries → property other

theorem Entries.Within.put {category other : String} {property : Entries → Prop}
    (within : Within category property) (ne : category ≠ other) {entries : Entries} (key : String)
    (bytes : List UInt8) (holds : property entries) : property (entries.put other key bytes) :=
  within _ _ (fun _ => put_of_category ne) holds

theorem Entries.Within.remove {category other : String} {property : Entries → Prop}
    (within : Within category property) (ne : category ≠ other) {entries : Entries} (key : String)
    (holds : property entries) : property (entries.remove other key) :=
  within _ _ (fun _ => remove_of_category ne) holds

/-- The categories of what is kept about branches. -/
def KeepsBranches (category : String) : Prop :=
  category = forkCategory ∨ category = mergeCategory

theorem KeepsBranches.ne {category other : String} (keeps : KeepsBranches category)
    (fork : forkCategory ≠ other) (merge : mergeCategory ≠ other) : category ≠ other := by
  rcases keeps with rfl | rfl
  · exact fork
  · exact merge

namespace Surroundings

variable {σ : Type} {S : Surroundings σ} {orders concern : Query → Prop}
  {answers : LocaleWatch.Answers}

/-! ## Queries -/

section

variable {property : Entries → Prop} {category : String}
  (steady : S.SteadyBut orders concern) (onlyOrders : ∀ query, orders query → query.isOrder = true)
  (concerned : concern .mainBranch) (branches : KeepsBranches category)
  (within : Entries.Within category property)
include steady

include within in
theorem mainHolds_admits {other : String} (main : mainBranchCategory ≠ other)
    (ne : category ≠ other) : S.Admits (S.MainHolds concern answers property) other :=
  fun holds => mainHolds_put steady main (fun has => within.put ne _ _ has) holds

include within in
theorem mainHolds_removal {other key : String} {state : σ} (ne : category ≠ other)
    (holds : S.MainHolds concern answers property state) :
    S.MainHolds concern answers property (S.next (.delete other key) state) :=
  holds.delete steady fun both => ⟨both.1.remove _ _, within.remove ne _ both.2⟩

include onlyOrders concerned branches within

private theorem keeps_mainWithin :
    Attempt.Keeps S.handler (S.MainHolds concern answers property) mainBranch fun main =>
      answers .mainBranch = .ok main.commits :=
  keeps_mainHeld steady onlyOrders concerned fun _ _ holds =>
    within.put (branches.ne (by decide) (by decide)) _ _ holds

/-- Queries keep a property of the kept fork or merge commits if the lookups of these do. -/
theorem mainHolds_sustains
    (fork : ∀ main commit, answers .mainBranch = .ok (MainBranch.commits main) →
      Attempt.Keeps S.handler (S.MainHolds concern answers property) (forkWithin main commit)
        fun _ => True)
    (merge : ∀ main commit, answers .mainBranch = .ok (MainBranch.commits main) →
      Attempt.Keeps S.handler (S.MainHolds concern answers property) (mergeWithin main commit)
        fun _ => True) :
    S.Sustains (S.MainHolds concern answers property) fun main =>
      answers .mainBranch = .ok main.commits := by
  have quiet : S.Undisturbed (S.MainHolds concern answers property) :=
    holding_undisturbed steady onlyOrders
  have notLast : category ≠ lastCommitCategory := branches.ne (by decide) (by decide)
  have notAfter : category ≠ commitsAfterCategory := branches.ne (by decide) (by decide)
  have notMain : category ≠ mainBranchCategory := branches.ne (by decide) (by decide)
  exact
    { quiet
      main := keeps_mainWithin steady onlyOrders concerned branches within
      fork
      merge
      last := fun path =>
        keeps_lookup quiet (mainHolds_admits steady within (by decide) notLast)
          (keeps_asked quiet rfl)
      commitsAfter := fun path start =>
        keeps_commitsLookup quiet (mainHolds_admits steady within (by decide) notAfter) path start
      forgetFile := fun path =>
        keeps_forgetFile (fun holds => mainHolds_removal steady within notLast holds)
          (fun holds => mainHolds_removal steady within notAfter holds) path
      forgetMain :=
        (keeps_drop fun holds => mainHolds_removal steady within notMain holds).mapError }

end

/-! ## Refreshes -/

/-- While no order is given, the answers to some queries are kept whatever is looked up. -/
private theorem holding_sturdy (steady : S.SteadyBut orders concern)
    (onlyOrders : ∀ query, orders query → query.isOrder = true) :
    S.Sturdy (S.Holding concern answers fun _ => True) := by
  have quiet : S.Undisturbed (S.Holding concern answers fun _ => True) :=
    holding_undisturbed steady onlyOrders
  have admits (category : String) : S.Admits (S.Holding concern answers fun _ => True) category :=
    fun holds => holds.write steady fun _ => trivial
  have main : Attempt.Keeps S.handler (S.Holding concern answers fun _ => True)
      (Cache.get mainBranchCategory "" (Tracking.query .mainBranch)) fun _ => True :=
    keeps_lookup quiet (admits _) (keeps_asked quiet rfl)
  exact
    { quiet
      removal := fun holds => holds.delete steady fun _ => trivial
      fork := admits _
      merge := admits _
      main := main.andThen fun commits => .pure trivial
      last := fun path => keeps_lookup quiet (admits _) (keeps_asked quiet rfl)
      commitsAfter := fun path start => keeps_commitsLookup quiet (admits _) path start }

/-- Before its pull a refresh still finds fresh what it found fresh. -/
private theorem triple_prepare_fresh (steady : S.SteadyBut (·.isOrder = true) (· = .freshCommits)) :
    Attempt.Triple S.handler (fun _ => True) (fun _ => True) Refresh.prepare fun outcome state =>
      S.answer state .freshCommits = .ok outcome.fresh := by
  have kept {α : Type} {attempt : History α} {fresh : List Commit}
      (keeps : ∀ answers : LocaleWatch.Answers,
        Attempt.Keeps S.handler (S.Holding (· = .freshCommits) answers fun _ => True) attempt
          fun _ => True) :
      Attempt.Triple S.handler (fun _ => True)
        (fun state => S.answer state .freshCommits = .ok fresh) attempt fun _ state =>
          S.answer state .freshCommits = .ok fresh := by
    intro state told
    refine (((keeps (S.answer state)).throughout fun _ _ => trivial) state
      ⟨fun _ _ => rfl, trivial⟩).mono ?_
    rintro (error | value) last holds
    · trivial
    · exact (holds.1.answers .freshCommits rfl).trans told
  have sturdy (answers : LocaleWatch.Answers) :
      S.Sturdy (S.Holding (· = .freshCommits) answers fun _ => True) :=
    holding_sturdy steady fun _ isOrder => isOrder
  have fetch : Attempt.Triple S.handler (fun _ => True) (fun _ => True) (Tracking.query .fetch)
      fun _ _ => True :=
    triple_query (fun _ _ => trivial) (fun _ _ _ _ => trivial) fun _ _ _ _ => trivial
  have asked : Attempt.Triple S.handler (fun _ => True) (fun _ => True)
      (Tracking.query .freshCommits) fun fresh state =>
        S.answer state .freshCommits = .ok fresh := by
    refine triple_query (fun _ _ => trivial) (fun state fresh _ told => ?_) fun _ _ _ _ => trivial
    refine (steady (.query .freshCommits) state .freshCommits rfl ?_).trans (S.answer_of_ok told)
    rintro order isOrder same
    cases same
    cases isOrder
  have gather : Attempt.Triple S.handler (fun _ => True) (fun _ => True) Refresh.gather
      fun outcome state => S.answer state .freshCommits = .ok outcome.fresh := by
    refine fetch.bind fun _ => asked.bind fun fresh => ?_
    refine (kept fun answers => (sturdy answers).changedFiles fresh).bind fun changed => ?_
    exact .pure fun _ holds => holds
  refine gather.bind fun outcome => ?_
  refine (kept fun answers => .forM fun file _ => (sturdy answers).forgetFile file).bind fun _ => ?_
  exact .pure fun _ holds => holds

section

variable {property : List Commit → Entries → Prop} {category : String}
  (steady : S.SteadyBut (· = .pull) concern) (concerned : concern .mainBranch)
  (branches : KeepsBranches category) (within : ∀ fresh, Entries.Within category (property fresh))
  (fork : ∀ fresh main commit, answers .mainBranch = .ok (MainBranch.commits main) →
    Attempt.Keeps S.handler (S.MainHolds concern answers (property fresh))
      (forkWithin (main.extendedWith fresh) commit) fun _ => True)
include steady

/-- Once it has pulled, a refresh drops the main branch if it has moved. -/
private theorem triple_settle {property : Entries → Prop} (branches : KeepsBranches category)
    (within : Entries.Within category property) (outcome : Refresh.Outcome) :
    Attempt.Triple S.handler (fun _ => True)
      (fun state => S.Holding concern answers property state ∧
        (outcome.fresh = [] → MainSeen .empty answers (S.entries state)))
      (Refresh.settle outcome) fun _ state => S.MainHolds concern answers property state := by
  have notState : category ≠ Refresh.stateCategory := branches.ne (by decide) (by decide)
  have notMain : category ≠ mainBranchCategory := branches.ne (by decide) (by decide)
  have record : Attempt.Triple S.handler (fun _ => True) (S.MainHolds concern answers property)
      (Refresh.record outcome) fun _ state => S.MainHolds concern answers property state :=
    ((keeps_record (holding_undisturbed steady Query.pull_isOrder)
      (mainHolds_admits steady within (by decide) notState) outcome).throughout
        fun _ _ => trivial).mono (fun _ holds => holds) fun _ _ holds => holds.1
  unfold Refresh.settle
  by_cases none : outcome.fresh = []
  · rw [List.isEmpty_iff.2 none]
    refine record.demand fun state holds => ?_
    exact ⟨holds.1.answers, holds.2 none, holds.1.entries⟩
  · rw [List.isEmpty_eq_false_iff.2 none]
    have drop : Attempt.Triple S.handler (S.Holding concern answers property)
        (fun state => S.Holding concern answers property state ∧ True)
        (Cache.drop mainBranchCategory "") fun _ state =>
          S.Holding concern answers property state ∧
            S.entries state mainBranchCategory "" = .none :=
      triple_drop (fun _ => True) (fun entries => entries mainBranchCategory "" = .none)
        (fun holds => holds.delete steady fun has => within.remove notMain _ has)
        fun entries _ => Entries.remove_self
    refine Attempt.Triple.bind ((drop.throughout fun _ _ => trivial).mapError.demand
      fun _ holds => ⟨holds.1, trivial⟩) fun _ => ?_
    refine record.demand fun state holds => ?_
    exact ⟨holds.1.answers, .of_absent holds.2, holds.1.entries⟩

private theorem mainHolds_idle {property : Entries → Prop} {query : Query} {state : σ}
    (early : query = .fetch ∨ query = .freshCommits)
    (holds : S.MainHolds concern answers property state) :
    S.MainHolds concern answers property (S.next (.query query) state) := by
  apply holds.spared steady rfl
  rintro order rfl same
  cases same
  rcases early with same | same <;> cases same

include branches within in
private theorem keeps_forgot (fresh : List Commit) (path : String) :
    Attempt.Keeps S.handler (S.MainHolds concern answers (property fresh)) (forgetFile path)
      fun _ => True := by
  have notLast : category ≠ lastCommitCategory := branches.ne (by decide) (by decide)
  have notAfter : category ≠ commitsAfterCategory := branches.ne (by decide) (by decide)
  exact keeps_forgetFile (fun holds => mainHolds_removal steady (within fresh) notLast holds)
    (fun holds => mainHolds_removal steady (within fresh) notAfter holds) path

include concerned branches within fork

private theorem keeps_gathered (fresh : List Commit) :
    Attempt.Keeps S.handler (S.MainHolds concern answers (property fresh))
      (Refresh.changedFiles fresh) fun _ => True :=
  keeps_changedLookup (holding_undisturbed steady Query.pull_isOrder)
    (keeps_mainWithin steady Query.pull_isOrder concerned branches (within fresh))
    fun main commit told => fork fresh main commit told

/-- A refresh that is refused nothing pulls what it found fresh. What it has kept of fork commits
it looked up on the main branch as it was going to be, and what holds of the kept commits right
after the pull holds in the end. -/
theorem refresh_pulls (moves : S.MovesByPull) {state : σ} {outcome : Refresh.Outcome}
    (start : ∀ fresh, S.MainHolds concern answers (property fresh) state)
    (told : S.result Refresh.run state = .ok outcome) :
    ∃ before, S.MainHolds concern answers (property outcome.fresh) before ∧
      S.Answers .pull before ∧ S.answer before .freshCommits = .ok outcome.fresh ∧
      ∀ carried : Entries → Prop, Entries.Within category carried → carried (S.entries before) →
        S.MainHolds concern (S.answer (S.next (.query .pull) before)) carried
          (S.after Refresh.run state) := by
  obtain ⟨prepared, pulled, settled, ended⟩ := run_ended told
  have holds := triple_run (triple_prepare_of (fun early holds => mainHolds_idle steady early holds)
    (keeps_gathered steady concerned branches within fork)
    (keeps_forgot steady branches within)) start
  have fresh := triple_run ((triple_prepare_fresh moves.fresh).demand
    fun other (_ : other = state) => trivial) rfl
  rw [prepared] at holds fresh
  refine ⟨S.after Refresh.prepare state, holds, pulled, fresh, fun carried within held => ?_⟩
  have same : S.entries (S.next (.query .pull) (S.after Refresh.prepare state)) =
      S.entries (S.after Refresh.prepare state) := S.entries_spared rfl
  have still (none : outcome.fresh = []) :
      MainSeen .empty (S.answer (S.next (.query .pull) (S.after Refresh.prepare state)))
        (S.entries (S.next (.query .pull) (S.after Refresh.prepare state))) := by
    rw [same]
    refine holds.entries.1.moved fun main told => ?_
    obtain ⟨fresh', told', grown⟩ := moves.pull pulled
    cases fresh.symm.trans told'
    rw [none] at grown
    exact grown main ((holds.answers .mainBranch concerned).trans told)
  have last := triple_run (triple_settle steady branches within outcome)
    ⟨⟨fun _ _ => rfl, same ▸ held⟩, still⟩
  rw [settled] at last
  rw [ended]
  exact last

/-- What a refresh leaves that fails up to its pull. -/
theorem advance_holds {state : σ} {error : HistoryError}
    (start : ∀ fresh, S.MainHolds concern answers (property fresh) state)
    (failed : S.result Refresh.advance state = .error error) :
    ∃ fresh, S.MainHolds concern answers (property fresh) (S.after Refresh.run state) := by
  have stopped := triple_run (triple_advance_of
    (fun early holds => mainHolds_idle steady early holds)
    (keeps_gathered steady concerned branches within fork) (keeps_forgot steady branches within)
    fun holds refused => holds.spared steady rfl ?_) start
  · rw [failed] at stopped
    rw [Refresh.run_eq, after_bind, failed]
    exact stopped
  · rintro order rfl -
    exact refused

end

/-! ## Steps of a run -/

/-- A step from one state to another, with the commits that it brings: a query or an order to
forget, which may be stopped on the way, or a refresh. The refresh gives an outcome; if it may fail,
it may also fail up to its pull. -/
inductive Step (S : Surroundings σ) (mayFail : Prop) : σ → List Commit → σ → Prop where
  | ended {state : σ} (call : Call) (query : call ≠ .refresh) :
    Step S mayFail state [] (S.after call.attempt state)
  | stopped {state : σ} (call : Call) (query : call ≠ .refresh) (count : Nat) :
    Step S mayFail state [] (S.stopped call.attempt count state)
  | refreshed {state : σ} {outcome : Refresh.Outcome}
    (told : S.result Refresh.run state = .ok outcome) :
    Step S mayFail state outcome.fresh (S.after Refresh.run state)
  | failed {state : σ} {error : HistoryError} (may : mayFail)
    (told : S.result Refresh.advance state = .error error) :
    Step S mayFail state [] (S.after Refresh.run state)

/-! ### A branch that is merged -/

/-- A repository in which a branch left `baseCommit` with `nextCommit`, on which `branchCommit` was
built. The remote has put the main branch forward to `nextCommit` and merged `branchCommit`. -/
def branched (pulled : Bool) : LocaleWatch.Answers
  | .mainBranch => .ok (if pulled then [mergeCommit, nextCommit, baseCommit] else [baseCommit])
  | .freshCommits => .ok (if pulled then [] else [mergeCommit, nextCommit])
  | .ancestors _ => .ok [branchCommit, nextCommit, baseCommit]
  | .mergePoints _ => .ok (if pulled then [mergeCommit] else [])
  | .filesIn commit => .ok (if commit = mergeCommit.id then [] else ["page"])
  | .parents _ => .ok [nextCommit.id, branchCommit.id]
  | .filesBetween _ _ | .files _ => .ok ["page"]
  | .lastCommit _ => .ok (some branchCommit)
  | .commitsAfter _ _ => .ok []
  | .mainHead => .ok (some (if pulled then mergeCommit.id else baseCommit.id))
  | .fileExists _ => .ok true
  | .fetch | .pull => .ok ()

theorem branched_movesByPull : (pulling branched).MovesByPull where
  main := pulling_steadyBut rfl
  fresh := pulling_steadyBut rfl
  pull {state} _ := by
    obtain ⟨pulled, entries⟩ := state
    cases pulled with
    | false => exact ⟨[mergeCommit, nextCommit], rfl, fun main told => by cases told; rfl⟩
    | true => exact ⟨[], rfl, fun main told => by cases told; rfl⟩

end Surroundings

end LocaleWatch
