import LocaleWatch.Proofs.Calm
import LocaleWatch.Proofs.History.MainBranch
import LocaleWatch.Proofs.Refresh.Phases

/-!
# How far the kept main branch is behind

A refresh drops the kept main branch after its pull. A refresh that is refused a request or
stopped between the two leaves a list that lacks the pulled commits, and since later
refreshes drop the list only if they find fresh commits themselves, it may stay.

To say how far a kept list is behind, runs are recorded: beside the state there are the
commits that were pulled since the list was kept. They are noted by each pull and gone once
the list is written anew or dropped.

## Main results

* `Surroundings.lags_sturdy`, `Surroundings.triple_refresh_lags` — what is kept lacks exactly
  the commits recorded.
* `Surroundings.mainBranch_behind` — each answer of the main branch lacks exactly these
  commits, and a refresh clears them only if it has fresh commits itself.
* `Surroundings.mainBranch_behind_stopped` — a run in which the answer stays behind.
-/

namespace LocaleWatch

open History

namespace Surroundings

variable {σ : Type}

/-- How pulls move the main branch: nothing else changes it, and a pull that is carried out
puts exactly the fresh commits in front. Which commits are fresh changes only by orders. -/
structure MovesByPull (S : Surroundings σ) : Prop where
  main : S.SteadyBut (· = .pull) (· = .mainBranch)
  fresh : S.SteadyBut (·.isOrder = true) (· = .freshCommits)
  pull : ∀ {state : σ}, S.Answers .pull state → ∃ fresh,
    S.answer state .freshCommits = .ok fresh ∧
      ∀ main, S.answer state .mainBranch = .ok main →
        S.answer (S.next (.query .pull) state) .mainBranch = .ok (fresh ++ main)

/-! ## Recorded runs -/

/-- What is missed after a pull: the fresh commits too, if there is a kept list to miss them. -/
def missedByPull (S : Surroundings σ) (state : σ) (answer : Except RepositoryError Unit)
    (missed : List Commit) : List Commit :=
  match answer, S.answer state .freshCommits, S.entries state mainBranchCategory "" with
  | .ok _, .ok fresh, some _ => fresh ++ missed
  | _, _, _ => missed

/-- What is missed after a change of the store: nothing once the main branch was written or
removed. -/
def missedByChange (category key : String) (answer : Except CacheError Unit)
    (missed : List Commit) : List Commit :=
  match answer with
  | .ok _ => if category = mainBranchCategory ∧ key = "" then [] else missed
  | .error _ => missed

/-- The commits that were pulled since the main branch was kept, after a request. -/
def missedAfter (S : Surroundings σ) (request : Tracking.Request) (state : σ)
    (missed : List Commit) : List Commit :=
  match request with
  | .query .pull => S.missedByPull state (S.handler (.query .pull) state).1 missed
  | .write category key bytes =>
    missedByChange category key (S.handler (.write category key bytes) state).1 missed
  | .delete category key =>
    missedByChange category key (S.handler (.delete category key) state).1 missed
  | _ => missed

/-- The same surroundings, with a record of the commits pulled since the main branch was
kept. -/
def recording (S : Surroundings σ) : Surroundings (σ × List Commit) where
  handler request state :=
    ((S.handler request state.1).1, (S.handler request state.1).2,
      S.missedAfter request state.1 state.2)
  entries state := S.entries state.1
  answer state := S.answer state.1
  answer_of_ok := S.answer_of_ok
  entry_of_read := S.entry_of_read
  entries_write := S.entries_write
  entries_write_refused := S.entries_write_refused
  entries_delete := S.entries_delete
  entries_delete_refused := S.entries_delete_refused
  entries_spared := S.entries_spared

variable {S : Surroundings σ}

/-- A record changes nothing of what is recorded. -/
theorem recording_run {ε α : Type} (attempt : Attempt Tracking ε α) (state : σ × List Commit) :
    S.recording.result attempt state = S.result attempt state.1 ∧
      (S.recording.after attempt state).1 = S.after attempt state.1 := by
  unfold result after
  generalize attempt.run = program
  induction program generalizing state with
  | done value => exact ⟨rfl, rfl⟩
  | ask request rest ih => exact ih _ (S.recording.handler request state).2

/-- After any change of the kept main branch nothing is missed, unless it was refused. -/
theorem recording_change {request : Tracking.Request} {category key : String}
    {state : σ × List Commit} {told : Except CacheError Unit} {changed : Entries}
    (granted : told = .ok () → S.entries (S.next request state.1) = changed)
    (refused : ∀ error, told = .error error →
      S.entries (S.next request state.1) = S.entries state.1)
    (missed : (S.recording.next request state).2 = missedByChange category key told state.2) :
    (S.entries (S.next request state.1) = changed ∧ (S.recording.next request state).2 =
        if category = mainBranchCategory ∧ key = "" then [] else state.2) ∨
    (S.entries (S.next request state.1) = S.entries state.1 ∧
      (S.recording.next request state).2 = state.2) := by
  rw [missed]
  cases told with
  | ok done => exact .inl ⟨granted rfl, rfl⟩
  | error error => exact .inr ⟨refused error rfl, rfl⟩

/-- Every request but a pull and a change of the store leaves the record alone. -/
theorem recording_idle {request : Tracking.Request} (state : σ × List Commit)
    (spares : request.sparesEntries = true) (noPull : request ≠ .query .pull) :
    (S.recording.next request state).2 = state.2 := by
  show S.missedAfter request state.1 state.2 = state.2
  unfold missedAfter
  split
  · contradiction
  · cases spares
  · cases spares
  · rfl

/-! ## What is kept lacks what is recorded -/

/-- The repository gives a main branch, and the kept one lacks the recorded commits of it. -/
structure Lags (S : Surroundings σ) (main : Except RepositoryError (List Commit))
    (state : σ × List Commit) : Prop where
  current : S.answer state.1 .mainBranch = main
  absent : S.entries state.1 mainBranchCategory "" = none → state.2 = []
  behind : ∀ kept, (S.entries state.1).Shows mainBranchCategory "" (some kept) →
    main = .ok (state.2 ++ kept)

variable {main : Except RepositoryError (List Commit)}

/-- A request keeps the lag if it touches neither the kept main branch nor the record. -/
private theorem Lags.untouched (moves : S.MovesByPull) {request : Tracking.Request}
    {state : σ × List Commit} (lags : S.Lags main state)
    (idle : request = .query .pull → ¬ S.Answers .pull state.1)
    (entry : S.entries (S.next request state.1) mainBranchCategory "" =
      S.entries state.1 mainBranchCategory "")
    (missed : (S.recording.next request state).2 = state.2) :
    S.Lags main (S.recording.next request state) where
  current := by
    refine Eq.trans (moves.main _ _ _ rfl ?_) lags.current
    rintro order rfl isPull
    exact idle isPull
  absent none := by
    rw [missed]
    exact lags.absent (entry.symm.trans none)
  behind kept shown := by
    rw [missed]
    exact lags.behind kept (shown.congr entry.symm)

theorem lags_undisturbed (moves : S.MovesByPull) : S.recording.Undisturbed (S.Lags main) := by
  intro request state quiet lags
  have spares := Tracking.Request.sparesEntries_of_isQuiet quiet
  have noPull : request ≠ .query .pull := by
    rintro rfl
    cases quiet
  refine lags.untouched moves (fun isPull => absurd isPull noPull) ?_
    (recording_idle state spares noPull)
  rw [show S.entries (S.next request state.1) = S.entries state.1 from S.entries_spared spares]

/-- A write keeps the lag: the main branch is written only as the repository gives it. -/
theorem Lags.write (moves : S.MovesByPull) {category key : String} {bytes : List UInt8}
    {state : σ × List Commit} (lags : S.Lags main state)
    (right : category = mainBranchCategory ∧ key = "" → ∃ kept,
      bytes = Text.bytes (JsonForm.compact kept) ∧ main = .ok kept) :
    S.Lags main (S.recording.next (.write category key bytes) state) := by
  have changed := recording_change S.entries_write (fun _ => S.entries_write_refused)
    (show (S.recording.next (.write category key bytes) state).2 = missedByChange category key
      (S.handler (.write category key bytes) state.1).1 state.2 from rfl)
  rcases changed with ⟨entries, missed⟩ | ⟨entries, missed⟩
  · by_cases same : category = mainBranchCategory ∧ key = ""
    · obtain ⟨kept, rfl, told⟩ := right same
      obtain ⟨rfl, rfl⟩ := same
      have shown : (S.entries (S.recording.next
          (.write mainBranchCategory "" (Text.bytes (JsonForm.compact kept))) state).1).Shows
            mainBranchCategory "" (some kept) := by
        rw [show S.entries (S.recording.next (.write mainBranchCategory ""
          (Text.bytes (JsonForm.compact kept))) state).1 = _ from entries]
        exact Entries.shows_put kept
      have still : S.answer (S.next (.write mainBranchCategory "" (Text.bytes
          (JsonForm.compact kept))) state.1) .mainBranch = S.answer state.1 .mainBranch :=
        moves.main _ _ _ rfl nofun
      rw [if_pos ⟨rfl, rfl⟩] at missed
      refine ⟨still.trans lags.current, fun _ => missed, ?_⟩
      intro other found
      cases shown.unique found
      rw [missed]
      exact told
    · rw [if_neg same] at missed
      refine lags.untouched moves nofun ?_ missed
      refine (congrFun (congrFun entries _) _).trans (Entries.put_of_ne ?_)
      rintro ⟨isMain, isKey⟩
      exact same ⟨isMain.symm, isKey.symm⟩
  · exact lags.untouched moves nofun (congrFun (congrFun entries _) _) missed

/-- A removal keeps the lag. -/
theorem Lags.delete (moves : S.MovesByPull) {category key : String} {state : σ × List Commit}
    (lags : S.Lags main state) :
    S.Lags main (S.recording.next (.delete category key) state) := by
  have changed := recording_change S.entries_delete (fun _ => S.entries_delete_refused)
    (show (S.recording.next (.delete category key) state).2 = missedByChange category key
      (S.handler (.delete category key) state.1).1 state.2 from rfl)
  rcases changed with ⟨entries, missed⟩ | ⟨entries, missed⟩
  · by_cases same : category = mainBranchCategory ∧ key = ""
    · obtain ⟨rfl, rfl⟩ := same
      rw [if_pos ⟨rfl, rfl⟩] at missed
      have none : S.entries (S.recording.next (.delete mainBranchCategory "") state).1
          mainBranchCategory "" = none :=
        (congrFun (congrFun entries _) _).trans Entries.remove_self
      have still : S.answer (S.next (.delete mainBranchCategory "") state.1) .mainBranch =
          S.answer state.1 .mainBranch := moves.main _ _ _ rfl nofun
      refine ⟨still.trans lags.current, fun _ => missed, ?_⟩
      rintro kept ⟨bytes, held, -⟩
      rw [none] at held
      contradiction
    · rw [if_neg same] at missed
      refine lags.untouched moves nofun ?_ missed
      refine (congrFun (congrFun entries _) _).trans (Entries.remove_of_ne ?_)
      rintro ⟨isMain, isKey⟩
      exact same ⟨isMain.symm, isKey.symm⟩
  · exact lags.untouched moves nofun (congrFun (congrFun entries _) _) missed

/-- A fact about the repository that changes only by orders. -/
def Unmoved (S : Surroundings σ) (fact : σ → Prop) : Prop :=
  ∀ (request : Tracking.Request) (state : σ),
    (∀ query, request = .query query → query.isOrder = false) → fact state →
      fact (S.next request state)

private theorem Unmoved.quiet {fact : σ → Prop} (unmoved : S.Unmoved fact) :
    S.Undisturbed fact := by
  intro request state quiet holds
  refine unmoved request state ?_ holds
  intro query same
  subst same
  simpa [Tracking.Request.isQuiet] using quiet

section

variable {fact : σ × List Commit → Prop} (moves : S.MovesByPull)
  (unmoved : S.recording.Unmoved fact)
include moves unmoved

/-- Together with a fact about the repository, the lag is kept by every call other than a
refresh. -/
theorem lags_sturdy : S.recording.Sturdy fun state => S.Lags main state ∧ fact state := by
  have quiet : S.recording.Undisturbed fun state => S.Lags main state ∧ fact state :=
    fun quiet holds => ⟨lags_undisturbed moves quiet holds.1, unmoved.quiet quiet holds.2⟩
  have admits {category : String} (other : category ≠ mainBranchCategory) :
      S.recording.Admits (fun state => S.Lags main state ∧ fact state) category :=
    fun holds => ⟨holds.1.write moves fun same => absurd same.1 other, unmoved _ _ nofun holds.2⟩
  refine
    { quiet := quiet
      removal := fun holds => ⟨holds.1.delete moves, unmoved _ _ nofun holds.2⟩
      fork := admits (by decide)
      merge := admits (by decide)
      main := ?_
      last := fun path =>
        keeps_lookup quiet (admits (by decide)) (keeps_asked quiet rfl)
      commitsAfter := fun path start => keeps_commitsLookup quiet (admits (by decide)) path start }
  have lookup : Attempt.Keeps S.recording.handler (fun state => S.Lags main state ∧ fact state)
      (Cache.get mainBranchCategory "" (Tracking.query .mainBranch)) fun _ => True := by
    refine keeps_get quiet (fun _ _ => trivial) (fun _ => ?_) fun _ (_ : True) => trivial
    refine (keeps_question quiet rfl).mono fun commits known => ⟨trivial, ?_⟩
    obtain ⟨state, ⟨lags, -⟩, answer⟩ := known
    exact fun holds => ⟨holds.1.write moves fun _ =>
      ⟨commits, rfl, lags.current.symm.trans answer⟩, unmoved _ _ nofun holds.2⟩
  exact lookup.andThen fun commits => .pure trivial

end

/-! ## A refresh -/

/-- The kept main branch lacks the recorded commits of the repository's. -/
def Behind (S : Surroundings σ) (state : σ × List Commit) : Prop :=
  S.Lags (S.answer state.1 .mainBranch) state

theorem Lags.isBehind {state : σ × List Commit} (lags : S.Lags main state) : S.Behind state := by
  unfold Behind
  rw [lags.current]
  exact lags

variable (moves : S.MovesByPull)
include moves

private theorem freshUnmoved (fresh : List Commit) :
    S.recording.Unmoved fun state => S.answer state.1 .freshCommits = .ok fresh := by
  intro request state question told
  refine (moves.fresh _ _ _ rfl ?_).trans told
  intro order isOrder same
  subst same
  rw [question order rfl] at isOrder
  contradiction

/-- A query that is no pull changes nothing of the lag. -/
private theorem Lags.query {state : σ × List Commit} (lags : S.Lags main state) (query : Query)
    (noPull : query ≠ .pull) :
    S.Lags main (S.recording.next (.query query) state) ∧
      (S.recording.next (.query query) state).2 = state.2 := by
  have request : Tracking.Request.query query ≠ .query .pull := by
    intro same
    cases same
    exact noPull rfl
  have missed := recording_idle (S := S) state rfl request
  have entries : S.entries (S.next (.query query) state.1) = S.entries state.1 :=
    S.entries_spared rfl
  refine ⟨lags.untouched moves (fun isPull => absurd isPull request) ?_ missed, missed⟩
  rw [entries]

/-- Without fresh commits a refresh finds nothing changed, and nothing of the lag changes. -/
private theorem triple_gather_lags (missed : List Commit) :
    Attempt.Triple S.recording.handler S.Behind
      (fun state => S.Lags main state ∧ state.2 = missed) Refresh.gather fun outcome state =>
        (S.Lags main state ∧ S.answer state.1 .freshCommits = .ok outcome.fresh) ∧
          (outcome.fresh = [] → outcome.changed = [] ∧ state.2 = missed) := by
  have fetch : Attempt.Triple S.recording.handler S.Behind
      (fun state => S.Lags main state ∧ state.2 = missed) (Tracking.query .fetch) fun _ state =>
        S.Lags main state ∧ state.2 = missed := by
    apply triple_query
    · intro state holds
      exact holds.1.isBehind
    · intro state value holds _
      have kept := holds.1.query moves .fetch nofun
      exact ⟨kept.1, kept.2.trans holds.2⟩
    · intro state error holds _
      exact (holds.1.query moves .fetch nofun).1.isBehind
  have fresh : Attempt.Triple S.recording.handler S.Behind
      (fun state => S.Lags main state ∧ state.2 = missed) (Tracking.query .freshCommits)
      fun fresh state => (S.Lags main state ∧ S.answer state.1 .freshCommits = .ok fresh) ∧
        state.2 = missed := by
    apply triple_query
    · intro state holds
      exact holds.1.isBehind
    · intro state value holds told
      have kept := holds.1.query moves .freshCommits nofun
      have known := freshUnmoved moves value (.query .freshCommits) state
        (fun query same => by cases same; rfl) (S.answer_of_ok told)
      exact ⟨⟨kept.1, known⟩, kept.2.trans holds.2⟩
    · intro state error holds _
      exact (holds.1.query moves .freshCommits nofun).1.isBehind
  have changed (fresh : List Commit) : Attempt.Triple S.recording.handler S.Behind
      (fun state => (S.Lags main state ∧ S.answer state.1 .freshCommits = .ok fresh) ∧
        state.2 = missed) (Refresh.changedFiles fresh) fun changed state =>
          (S.Lags main state ∧ S.answer state.1 .freshCommits = .ok fresh) ∧
            (fresh = [] → changed = [] ∧ state.2 = missed) := by
    cases fresh with
    | nil =>
      exact .pure fun state holds => ⟨holds.1, fun _ => ⟨rfl, holds.2⟩⟩
    | cons first more =>
      have sturdy : S.recording.Sturdy fun state =>
          S.Lags main state ∧ S.answer state.1 .freshCommits = .ok (first :: more) :=
        lags_sturdy moves (freshUnmoved moves (first :: more))
      exact ((sturdy.changedFiles (first :: more)).throughout fun _ holds => holds.1.isBehind).mono
        (fun _ holds => holds.1) fun _ _ holds => ⟨holds.1, nofun⟩
  exact fetch.bind fun _ => fresh.bind fun fresh => (changed fresh).bind fun changed =>
    .pure fun _ holds => holds

/-- Before the pull nothing of the lag changes, and the fresh commits stay known. -/
private theorem triple_prepare_lags (missed : List Commit) :
    Attempt.Triple S.recording.handler S.Behind
      (fun state => S.Lags main state ∧ state.2 = missed) Refresh.prepare fun outcome state =>
        (S.Lags main state ∧ S.answer state.1 .freshCommits = .ok outcome.fresh) ∧
          (outcome.fresh = [] → state.2 = missed) := by
  apply (triple_gather_lags moves missed).bind
  intro outcome
  by_cases none : outcome.fresh = []
  · intro state holds
    obtain ⟨lags, found⟩ := holds
    obtain ⟨changed, same⟩ := found none
    rw [changed]
    exact ⟨lags, fun _ => same⟩
  · have sturdy : S.recording.Sturdy fun state =>
        S.Lags main state ∧ S.answer state.1 .freshCommits = .ok outcome.fresh :=
      lags_sturdy moves (freshUnmoved moves outcome.fresh)
    have forget : Attempt.Keeps S.recording.handler
        (fun state => S.Lags main state ∧ S.answer state.1 .freshCommits = .ok outcome.fresh)
        (outcome.changed.forM forgetFile) fun _ => True :=
      .forM fun file _ => sturdy.forgetFile file
    refine .bind ((forget.throughout fun _ holds => holds.1.isBehind).mono
      (fun _ holds => holds.1) fun _ _ holds => holds.1) fun _ => ?_
    exact .pure fun state holds => ⟨holds, fun no => absurd no none⟩

/-- A pull that is carried out adds the fresh commits to what is missed. -/
private theorem triple_pull_lags (outcome : Refresh.Outcome) (missed : List Commit) :
    Attempt.Triple S.recording.handler S.Behind
      (fun state => (S.Lags main state ∧ S.answer state.1 .freshCommits = .ok outcome.fresh) ∧
        (outcome.fresh = [] → state.2 = missed)) (Tracking.query .pull) fun _ state =>
          S.Behind state ∧ (outcome.fresh = [] → state.2 = missed) := by
  have entries (state : σ × List Commit) :
      S.entries (S.next (.query .pull) state.1) = S.entries state.1 := S.entries_spared rfl
  apply triple_query
  · intro state holds
    exact holds.1.1.isBehind
  · intro state value holds told
    obtain ⟨⟨lags, known⟩, same⟩ := holds
    obtain ⟨fresh, freshAnswer, grown⟩ := moves.pull ⟨value, told⟩
    cases freshAnswer.symm.trans known
    have next : (S.recording.next (.query .pull) state).2 =
        S.missedByPull state.1 (.ok value) state.2 :=
      congrArg (fun answer => S.missedByPull state.1 answer state.2) told
    cases entry : S.entries state.1 mainBranchCategory "" with
    | none =>
      have unchanged : (S.recording.next (.query .pull) state).2 = state.2 := by
        rw [next]
        unfold missedByPull
        rw [known, entry]
      refine ⟨⟨rfl, fun _ => unchanged.trans (lags.absent entry), ?_⟩, fun no => ?_⟩
      · intro kept shown
        obtain ⟨bytes, held, -⟩ := shown
        rw [show S.entries (S.recording.next (.query .pull) state).1 = S.entries state.1 from
          entries state, entry] at held
        contradiction
      · exact unchanged.trans (same no)
    | some bytes =>
      have more : (S.recording.next (.query .pull) state).2 = outcome.fresh ++ state.2 := by
        rw [next]
        unfold missedByPull
        rw [known, entry]
      refine ⟨⟨rfl, fun none => ?_, ?_⟩, fun no => ?_⟩
      · rw [show S.entries (S.recording.next (.query .pull) state).1 = S.entries state.1 from
          entries state, entry] at none
        contradiction
      · intro kept shown
        have before := lags.behind kept
          (shown.congr (congrFun (congrFun (entries state) _) _).symm)
        rw [more, List.append_assoc]
        exact grown _ (lags.current.trans before)
      · rw [more, no]
        exact same no
  · intro state error holds refused
    have missed : (S.recording.next (.query .pull) state).2 = state.2 :=
      congrArg (fun answer => S.missedByPull state.1 answer state.2) refused
    have idle : ¬ S.Answers .pull state.1 := by
      intro answers
      obtain ⟨value, told⟩ := answers
      cases told.symm.trans refused
    refine (holds.1.1.untouched moves (fun _ => idle) ?_ missed).isBehind
    rw [entries]

/-- Noting down the state of a refresh changes nothing of the lag. -/
private theorem triple_record_lags (outcome : Refresh.Outcome) (missed : List Commit) :
    Attempt.Triple S.recording.handler S.Behind
      (fun state => S.Behind state ∧ state.2 = missed) (Refresh.record outcome) fun value state =>
        (S.Behind state ∧ state.2 = missed) ∧ value = outcome := by
  intro state holds
  have quiet : S.recording.Undisturbed fun other =>
      S.Lags (S.answer state.1 .mainBranch) other ∧ other.2 = missed := by
    intro request other quiet lags
    have noPull : request ≠ .query .pull := by
      intro isPull
      rw [isPull] at quiet
      cases quiet
    have spares := Tracking.Request.sparesEntries_of_isQuiet quiet
    exact ⟨lags_undisturbed moves quiet lags.1,
      (recording_idle other spares noPull).trans lags.2⟩
  have admits : S.recording.Admits (fun other =>
      S.Lags (S.answer state.1 .mainBranch) other ∧ other.2 = missed) Refresh.stateCategory := by
    intro key bytes other lags
    refine ⟨lags.1.write moves fun same => absurd same.1 (by decide), ?_⟩
    have changed := recording_change S.entries_write (fun _ => S.entries_write_refused)
      (show (S.recording.next (.write Refresh.stateCategory key bytes) other).2 = missedByChange
        Refresh.stateCategory key (S.handler (.write Refresh.stateCategory key bytes) other.1).1
          other.2 from rfl)
    rcases changed with ⟨-, same⟩ | ⟨-, same⟩
    · rw [same, if_neg fun isMain => absurd isMain.1 (by decide)]
      exact lags.2
    · exact same.trans lags.2
  have keeps : Attempt.Keeps S.recording.handler (fun other =>
      S.Lags (S.answer state.1 .mainBranch) other ∧ other.2 = missed) (Refresh.record outcome)
        fun value => value = outcome :=
    keeps_record quiet admits outcome
  exact (keeps.throughout fun _ lags => lags.1.isBehind).mono (fun _ lags => lags)
    (fun _ _ kept => ⟨⟨kept.1.1.isBehind, kept.1.2⟩, kept.2⟩) state holds

/-- Once the main branch is dropped, nothing is missed. -/
private theorem triple_forget_lags :
    Attempt.Triple S.recording.handler S.Behind S.Behind forgetMainBranch fun _ state =>
      S.Behind state ∧ state.2 = [] := by
  refine .mapError fun state behind => ⟨behind, ?_⟩
  have kept : S.Behind (S.recording.next (.delete mainBranchCategory "") state) :=
    (Lags.delete moves behind).isBehind
  have missed : (S.recording.next (.delete mainBranchCategory "") state).2 =
      missedByChange mainBranchCategory "" (S.handler (.delete mainBranchCategory "") state.1).1
        state.2 := rfl
  unfold next at kept missed
  cases answer : (S.recording.handler (.delete mainBranchCategory "") state).1 with
  | ok done =>
    refine ⟨kept, missed.trans ?_⟩
    exact congrArg (fun answer => missedByChange mainBranchCategory "" answer state.2) answer
  | error error => exact kept

/-- What a refresh that is not refused anything leaves missed: nothing if it had fresh
commits, and else what was missed before it. -/
theorem triple_refresh_lags (state : σ × List Commit) (behind : S.Behind state) :
    Attempt.Triple S.recording.handler S.Behind (· = state) Refresh.run fun outcome last =>
      S.Behind last ∧ last.2 = if outcome.fresh = [] then state.2 else [] := by
  rw [Refresh.run_eq]
  have advance : Attempt.Triple S.recording.handler S.Behind (· = state) Refresh.advance
      fun outcome last => S.Behind last ∧ (outcome.fresh = [] → last.2 = state.2) := by
    have started : ∀ other, other = state →
        S.Lags (S.answer state.1 .mainBranch) other ∧ other.2 = state.2 := by
      intro other same
      rw [same]
      exact ⟨behind, rfl⟩
    apply ((triple_prepare_lags moves state.2).demand started).bind
    intro outcome
    exact (triple_pull_lags moves outcome state.2).bind fun _ => .pure fun _ holds => holds
  apply advance.bind
  intro outcome
  unfold Refresh.settle
  by_cases none : outcome.fresh = []
  · rw [List.isEmpty_iff.2 none]
    refine ((triple_record_lags moves outcome state.2).mono ?_ ?_)
    · intro other holds
      exact ⟨holds.1, holds.2 none⟩
    · intro value other holds
      rw [holds.2, if_pos none]
      exact holds.1
  · rw [List.isEmpty_eq_false_iff.2 none]
    apply Attempt.Triple.bind ((triple_forget_lags moves).demand fun _ holds => holds.1)
    intro _
    refine (triple_record_lags moves outcome []).mono (fun _ holds => holds) ?_
    intro value other holds
    rw [holds.2, if_neg none]
    exact holds.1

/-! ## The answers -/

omit moves in
/-- A question for the main branch gives what the repository gives, less what is missed. -/
private theorem mainBranch_lags (steady : S.SteadyBut (· = .pull) (· = .mainBranch)) {state : σ}
    {missed : List Commit} (behind : S.Behind (state, missed)) {branch : MainBranch}
    (told : S.result mainBranch state = .ok branch) :
    S.answer (S.after mainBranch state) .mainBranch = .ok (missed ++ branch.commits) := by
  have keeps : Attempt.Keeps S.handler
      (S.Holding (· = .mainBranch) (S.answer state) (MainSeen (S.entries state) (S.answer state)))
      mainBranch fun main => SeenMain (S.entries state) (S.answer state) main.commits :=
    keeps_mainBranch steady Query.pull_isOrder rfl (fun _ seen => seen)
      fun _ _ absent told _ => .put absent told
  obtain ⟨held, seen⟩ := keeps_run keeps ⟨fun _ _ => rfl, .refl⟩
  rw [held.answers .mainBranch rfl]
  rcases seen branch told with shown | ⟨absent, current⟩
  · exact behind.behind branch.commits shown
  · have none : missed = [] := behind.absent absent
    rw [current, none]
    rfl

/-- The states of recorded runs that start with an empty store. -/
abbrev Recorded (S : Surroundings σ) : σ × List Commit → Prop :=
  S.recording.Reached (fun state => S.entries state.1 = .empty ∧ state.2 = []) fun _ _ => True

/-- Wherever a run stands, what is kept lacks what is recorded. -/
private theorem reached_behind {state : σ × List Commit} (reached : S.Recorded state) :
    S.Behind state := by
  refine reached.always (fun state starts => ?_) fun call state _ behind => ?_
  · refine ⟨rfl, fun _ => starts.2, fun kept shown => ?_⟩
    obtain ⟨bytes, held, -⟩ := shown
    rw [starts.1] at held
    contradiction
  · by_cases refresh : call = .refresh
    · subst refresh
      exact (triple_refresh_lags moves state behind).mono (fun _ holds => holds)
        fun _ _ holds => holds.1
    · have sturdy : S.recording.Sturdy fun other =>
          S.Lags (S.answer state.1 .mainBranch) other ∧ True :=
        lags_sturdy moves fun _ _ _ _ => trivial
      refine ((sturdy.call call refresh).throughout fun _ holds => holds.1.isBehind).mono ?_
        fun _ _ holds => holds.1.1.isBehind
      intro other same
      rw [same]
      exact ⟨behind, trivial⟩

/-- Wherever a run stands, each answer of the main branch lacks exactly the commits that were
pulled since it was kept, so that it is current if and only if there are none; whether a commit
is on the main branch is answered from the same list. A refresh that is refused nothing clears
what is missed if it has fresh commits, and leaves it as it is if it has none. -/
theorem mainBranch_behind {state : σ} {missed : List Commit}
    (reached : S.Recorded (state, missed)) :
    (∀ branch, S.result mainBranch state = .ok branch →
      S.answer (S.after mainBranch state) .mainBranch = .ok (missed ++ branch.commits) ∧
        (S.answer (S.after mainBranch state) .mainBranch = .ok branch.commits ↔ missed = [])) ∧
    (∀ commit isOn, S.result (isOnMain commit) state = .ok isOn → ∃ kept,
      S.answer (S.after (isOnMain commit) state) .mainBranch = .ok (missed ++ kept) ∧
        (isOn = true ↔ ∃ other ∈ kept, other.id = commit)) ∧
    (∀ outcome, S.result Refresh.run state = .ok outcome →
      (S.recording.after Refresh.run (state, missed)).2 =
        if outcome.fresh = [] then missed else []) := by
  have behind : S.Behind (state, missed) := reached_behind moves reached
  refine ⟨fun branch told => ?_, fun commit isOn told => ?_, fun outcome told => ?_⟩
  · have lags := mainBranch_lags moves.main behind told
    refine ⟨lags, ?_⟩
    rw [lags]
    constructor
    · intro same
      exact List.append_left_eq_self.1 (Except.ok.inj same)
    · intro none
      rw [none]
      rfl
  · unfold isOnMain at told ⊢
    rw [result_bind] at told
    rw [after_bind]
    cases answer : S.result mainBranch state with
    | error error =>
      rw [answer] at told
      contradiction
    | ok branch =>
      rw [answer] at told
      cases told
      exact ⟨branch.commits, mainBranch_lags moves.main behind answer, MainBranch.contains_iff⟩
  · have met := triple_run (triple_refresh_lags moves (state, missed) behind) rfl
    rw [(recording_run Refresh.run (state, missed)).1, told] at met
    exact met.2

omit moves in
private theorem onePage_movesByPull : onePage.MovesByPull where
  main := onePage_steadyBut rfl
  fresh := onePage_steadyBut rfl
  pull {state} _ := by
    obtain ⟨pulled, entries⟩ := state
    cases pulled with
    | false => exact ⟨[newCommit], rfl, fun main told => by cases told; rfl⟩
    | true => exact ⟨[], rfl, fun main told => by cases told; rfl⟩

/-- The state after the main branch was kept, a refresh was stopped right after its pull, and
another refresh found nothing fresh. -/
def pageStopped : (Bool × Entries) × List Commit :=
  onePage.recording.after Refresh.run (onePage.recording.stopped Refresh.run 6
    (onePage.recording.after mainBranch ((false, .empty), [])))

omit moves in
/-- The list that was kept before the pull is still given. -/
theorem mainBranch_behind_stopped :
    onePage.result mainBranch pageStopped.1 = .ok ⟨[oldCommit]⟩ ∧
      onePage.answer (onePage.after mainBranch pageStopped.1) .mainBranch =
        .ok [newCommit, oldCommit] := by
  have start : onePage.Recorded ((false, .empty), []) := .start ⟨rfl, rfl⟩
  have kept : onePage.Recorded (onePage.recording.after mainBranch ((false, .empty), [])) :=
    start.ended .mainBranch trivial
  have stopped : onePage.Recorded (onePage.recording.stopped Refresh.run 6
      (onePage.recording.after mainBranch ((false, .empty), []))) :=
    kept.stopped .refresh 6 trivial
  have reached : onePage.Recorded (pageStopped.1, [newCommit]) := stopped.ended .refresh trivial
  have told : onePage.result mainBranch pageStopped.1 = .ok ⟨[oldCommit]⟩ := rfl
  exact ⟨told, ((mainBranch_behind onePage_movesByPull reached).1 _ told).1⟩

end Surroundings

end LocaleWatch
