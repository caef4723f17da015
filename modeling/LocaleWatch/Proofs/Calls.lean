import LocaleWatch.Proofs.Cache.Keyed
import LocaleWatch.Refresh
import LocaleWatch.Staleness

/-!
# Calls of the tracker

A call is a question about history or files, an order to forget something, or a refresh.
All but the refresh leave the repository alone. What such a call keeps is settled by few
facts about a kind of states: the lookups that calls are made of keep it, those of fork and
merge commits on a main branch that is found to be current, and so do the orders to forget.

## Main results

* `Surroundings.Upholds.call` — a kind of states that is upheld is kept by every call that drops
  nothing.
* `Surroundings.Sustains.call` — a kind of states that is sustained is kept by every call other
  than a refresh.
* `Surroundings.keeps_changedLookup` — what is kept by the part of a refresh that finds the changed
  files.
* `Surroundings.Sturdy.sustains` — a kind of states that quiet requests and removals keep, and to
  which the kept fork and merge commits do not matter, is sustained.
-/

namespace LocaleWatch

/-- What a program may ask of the tracker. -/
inductive Call where
  | mainBranch
  | isOnMain (commit : CommitId)
  | fork (commit : CommitId)
  | merge (commit : CommitId)
  | mergeFiles (merge : CommitId)
  | lastCommit (path : Path)
  | commitsAfter (path : Path) (start : CommitId)
  | checkFiles (layout : Layout) (language : String) (paths : List String)
  | checkLanguage (layout : Layout) (language : String)
  | forgetFile (path : String)
  | forgetMainBranch
  | refresh

namespace Call

/-- What a call gives. -/
@[reducible] def Result : Call → Type
  | mainBranch => MainBranch
  | isOnMain _ => Bool
  | fork _ | merge _ | lastCommit _ => Option Commit
  | mergeFiles _ => List String
  | commitsAfter _ _ => List Commit
  | checkFiles _ _ _ | checkLanguage _ _ => List LocalizedFile
  | forgetFile _ | forgetMainBranch => Unit
  | refresh => Refresh.Outcome

/-- How a call is carried out. -/
def attempt : (call : Call) → History call.Result
  | mainBranch => History.mainBranch
  | isOnMain commit => History.isOnMain commit
  | fork commit => History.fork commit
  | merge commit => History.merge commit
  | mergeFiles commit => History.mergeFiles commit
  | lastCommit path => History.lastCommit path
  | commitsAfter path start => History.commitsAfter path start
  | checkFiles layout language paths => Staleness.checkFiles layout language paths
  | checkLanguage layout language => Staleness.checkLanguage layout language
  | forgetFile path => History.forgetFile path
  | forgetMainBranch => History.forgetMainBranch
  | refresh => Refresh.run

/-- Whether a call may drop what is kept. -/
def drops : Call → Bool
  | forgetFile _ | forgetMainBranch | refresh => true
  | _ => false

end Call

namespace Surroundings

variable {σ : Type} {S : Surroundings σ} {kind : σ → Prop}

/-- A kind of states is upheld: the lookups of which calls are made keep it. A call first looks up
the main branch, which is found to be a `current` one, and then fork and merge commits on it. -/
structure Upholds (S : Surroundings σ) (kind : σ → Prop) (current : MainBranch → Prop) :
    Prop where
  quiet : S.Undisturbed kind
  main : Attempt.Keeps S.handler kind History.mainBranch current
  fork : ∀ main commit, current main →
    Attempt.Keeps S.handler kind (History.forkWithin main commit) fun _ => True
  merge : ∀ main commit, current main →
    Attempt.Keeps S.handler kind (History.mergeWithin main commit) fun _ => True
  last : ∀ path, Attempt.Keeps S.handler kind (History.lastCommit path) fun _ => True
  commitsAfter : ∀ path start,
    Attempt.Keeps S.handler kind (History.commitsAfter path start) fun _ => True

/-- A kind of states is sustained: the orders to forget keep it, too. -/
structure Sustains (S : Surroundings σ) (kind : σ → Prop) (current : MainBranch → Prop) : Prop
    extends Upholds S kind current where
  forgetFile : ∀ path, Attempt.Keeps S.handler kind (History.forgetFile path) fun _ => True
  forgetMain : Attempt.Keeps S.handler kind History.forgetMainBranch fun _ => True

/-- A kind of states is sturdy: quiet requests and removals keep it, and so do the lookups,
those of fork and merge commits because nothing of what is kept in their categories matters. -/
structure Sturdy (S : Surroundings σ) (kind : σ → Prop) : Prop where
  quiet : S.Undisturbed kind
  removal : ∀ {category key : String} {state : σ}, kind state →
    kind (S.next (.delete category key) state)
  fork : S.Admits kind History.forkCategory
  merge : S.Admits kind History.mergeCategory
  main : Attempt.Keeps S.handler kind History.mainBranch fun _ => True
  last : ∀ path, Attempt.Keeps S.handler kind (History.lastCommit path) fun _ => True
  commitsAfter : ∀ path start,
    Attempt.Keeps S.handler kind (History.commitsAfter path start) fun _ => True

/-! ## Lookups of which no more is to be known -/

/-- A lookup in an admitted category, of which no more is to be known. -/
theorem keeps_lookup {α : Type} [JsonForm α] (quiet : S.Undisturbed kind) {category : String}
    (admits : S.Admits kind category) {isInvalid : α → Bool} {key : String} {compute : History α}
    (keeps : Attempt.Keeps S.handler kind compute fun _ => True) :
    Attempt.Keeps S.handler kind (Cache.getUnless isInvalid category key compute)
      fun _ => True := by
  refine keeps_getUnless quiet (fun _ _ _ => trivial) (fun _ => ?_) fun _ (_ : True) => trivial
  exact keeps.mono fun value _ => ⟨trivial, fun holds => admits holds⟩

/-- The answer to a question, of which no more is to be known. -/
theorem keeps_asked (quiet : S.Undisturbed kind) {query : Query}
    (question : query.isOrder = false) :
    Attempt.Keeps S.handler kind (Tracking.query query) fun _ => True :=
  (keeps_question quiet question).mono fun _ _ => trivial

/-- A lookup of a fork commit, of which no more is to be known. -/
theorem keeps_forkLookup (quiet : S.Undisturbed kind)
    (admits : S.Admits kind History.forkCategory) (main : MainBranch) (commit : CommitId) :
    Attempt.Keeps S.handler kind (History.forkWithin main commit) fun _ => True := by
  unfold History.forkWithin
  split
  · exact .pure trivial
  · apply keeps_lookup quiet admits
    apply (keeps_asked quiet rfl).andThen
    intro ancestors
    split
    · exact .pure trivial
    · exact .throw

/-- A lookup of a merge commit, of which no more is to be known. -/
theorem keeps_mergeLookup (quiet : S.Undisturbed kind)
    (admits : S.Admits kind History.mergeCategory) (main : MainBranch) (commit : CommitId) :
    Attempt.Keeps S.handler kind (History.mergeWithin main commit) fun _ => True := by
  unfold History.mergeWithin
  split
  · exact .pure trivial
  · apply keeps_lookup quiet admits
    exact (keeps_asked quiet rfl).andThen fun points => .pure trivial

/-- A lookup of later commits. What is shown for the start point is `right`, and so is what the
repository answers where nothing is shown; that may be added to what is shown for the others. -/
theorem keeps_laterLookup (quiet : S.Undisturbed kind) {path : Path} {start : CommitId}
    {right : List Commit → Prop}
    (shown : ∀ {state starts commits}, kind state →
      (S.entries state).Shows History.commitsAfterCategory path.key (some starts) →
        CommitsByStart.get? starts start = some commits → right commits)
    (asked : ∀ {state commits}, kind state →
      S.answer state (.commitsAfter path start) = .ok commits → right commits)
    (added : ∀ {state before kept commits}, kind before →
      (S.entries before).Shows History.commitsAfterCategory path.key kept →
        (kept.getD CommitsByStart.empty).get? start = none → right commits → kind state →
          kind (S.next (.write History.commitsAfterCategory path.key
            (Text.bytes (JsonForm.compact ((kept.getD .empty).insert start commits)))) state)) :
    Attempt.Keeps S.handler kind (History.commitsAfter path start) right := by
  apply (keeps_load quiet History.commitsAfterCategory path.key).mapError.bind
  intro kept known
  obtain ⟨before, holds, shows⟩ := known
  cases held : (kept.getD .empty).get? start with
  | some commits =>
    simp only [held]
    cases kept with
    | none => cases held
    | some starts => exact .pure (shown holds shows held)
  | none =>
    simp only [held]
    apply (keeps_question quiet rfl).bind
    intro commits known
    obtain ⟨state, holds', answer⟩ := known
    have told : right commits := asked holds' answer
    have put := keeps_put quiet fun holds'' => added holds shows held told holds''
    exact put.mapError.bind fun _ _ => .pure told

/-- A lookup of later commits: what is kept for the start points of a file is `found`, and so is
what the repository answers for this one. -/
theorem keeps_startsLookup (quiet : S.Undisturbed kind) {path : Path} {start : CommitId}
    (found : CommitId → List Commit → Prop)
    (shown : ∀ {state starts other commits}, kind state →
      (S.entries state).Shows History.commitsAfterCategory path.key (some starts) →
        CommitsByStart.get? starts other = some commits → found other commits)
    (asked : ∀ {state commits}, kind state →
      S.answer state (.commitsAfter path start) = .ok commits → found start commits)
    (put : ∀ {state} {starts : CommitsByStart}, kind state →
      (∀ other commits, starts.get? other = some commits → found other commits) →
        kind (S.next (.write History.commitsAfterCategory path.key
          (Text.bytes (JsonForm.compact starts))) state)) :
    Attempt.Keeps S.handler kind (History.commitsAfter path start) (found start) := by
  refine keeps_laterLookup quiet shown asked fun {state before kept commits} holds shows _ told
    holds' => put holds' fun other commits' held => ?_
  by_cases same : other = start
  · subst same
    rw [CommitsByStart.get?_insert_self] at held
    cases held
    exact told
  · rw [CommitsByStart.get?_insert_of_ne _ same] at held
    cases kept with
    | none => cases held
    | some starts => exact shown holds shows held

/-- A lookup of later commits, of which no more is to be known. -/
theorem keeps_commitsLookup (quiet : S.Undisturbed kind)
    (admits : S.Admits kind History.commitsAfterCategory) (path : Path) (start : CommitId) :
    Attempt.Keeps S.handler kind (History.commitsAfter path start) fun _ => True :=
  keeps_startsLookup quiet (fun _ _ => True) (fun _ _ _ => trivial) (fun _ _ => trivial)
    fun holds _ => admits holds

/-- The order to forget a file, of which no more is to be known. -/
theorem keeps_forgetFile
    (last : ∀ {key : String} {state : σ}, kind state →
      kind (S.next (.delete History.lastCommitCategory key) state))
    (commitsAfter : ∀ {key : String} {state : σ}, kind state →
      kind (S.next (.delete History.commitsAfterCategory key) state)) (path : String) :
    Attempt.Keeps S.handler kind (History.forgetFile path) fun _ => True :=
  (keeps_drop fun holds => last holds).mapError.andThen fun _ =>
    (keeps_drop fun holds => commitsAfter holds).mapError

/-- The files that a merge brought in, of which no more is to be known. -/
theorem keeps_mergeFilesLookup (quiet : S.Undisturbed kind) {main : MainBranch}
    (fork : ∀ commit, Attempt.Keeps S.handler kind (History.forkWithin main commit) fun _ => True)
    (merge : CommitId) :
    Attempt.Keeps S.handler kind (History.mergeFilesWithin main merge) fun _ => True := by
  unfold History.mergeFilesWithin
  apply (keeps_asked quiet rfl).andThen
  intro parents
  split
  · exact .pure trivial
  · exact .pure trivial
  · split
    · apply (fork _).andThen
      intro fork
      split
      · exact keeps_asked quiet rfl
      · exact .throw
    · exact .throw
  · exact .throw

/-- The changed files, of which no more is to be known: fork commits are looked up on the main
branch as it is going to be. -/
theorem keeps_changedLookup (quiet : S.Undisturbed kind) {current : MainBranch → Prop}
    (main : Attempt.Keeps S.handler kind History.mainBranch current) {fresh : List Commit}
    (ahead : ∀ main commit, current main → Attempt.Keeps S.handler kind
      (History.forkWithin (main.extendedWith fresh) commit) fun _ => True) :
    Attempt.Keeps S.handler kind (Refresh.changedFiles fresh) fun _ => True := by
  unfold Refresh.changedFiles
  refine Attempt.Keeps.andThen ?_ fun listings => ?_
  · apply Attempt.Keeps.forEach
    intro commit
    exact (keeps_asked quiet rfl).andThen fun files => .pure trivial
  · refine Attempt.Keeps.andThen ?_ fun merged => .pure trivial
    unfold Refresh.mergedFiles
    split
    · exact .pure trivial
    · apply main.bind
      intro main isCurrent
      refine Attempt.Keeps.andThen (.forEach fun merge => ?_) fun files => .pure trivial
      exact keeps_mergeFilesLookup quiet (fun commit => ahead main commit isCurrent) merge

/-! ## Calls -/

namespace Upholds

variable {current : MainBranch → Prop} (upholds : S.Upholds kind current)
include upholds

theorem updates {main : MainBranch} (isCurrent : current main) (origin : Path)
    (start : CommitId) :
    Attempt.Keeps S.handler kind (Staleness.updates main origin start) fun _ => True := by
  refine (upholds.commitsAfter origin start).andThen fun commits => .forEach fun commit => ?_
  exact (upholds.merge main commit.id isCurrent).andThen fun merge => .pure trivial

theorem checkFile (layout : Layout) {main : MainBranch} (isCurrent : current main)
    (language path : String) :
    Attempt.Keeps S.handler kind (Staleness.checkFile layout main language path) fun _ => True := by
  unfold Staleness.checkFile
  apply (upholds.last _).andThen
  intro last
  cases last with
  | none =>
    apply (keeps_asked upholds.quiet rfl).andThen
    intro originExists
    cases originExists <;> exact .pure trivial
  | some last =>
    apply (upholds.fork main _ isCurrent).andThen
    intro fork
    apply (upholds.merge main _ isCurrent).andThen
    intro merge
    apply (keeps_asked upholds.quiet rfl).andThen
    intro originExists
    cases originExists with
    | false => exact .pure trivial
    | true => exact (upholds.updates isCurrent _ _).andThen fun updates => .pure trivial

theorem checkFiles (layout : Layout) (language : String) (paths : List String) :
    Attempt.Keeps S.handler kind (Staleness.checkFiles layout language paths) fun _ => True := by
  exact upholds.main.bind fun main isCurrent => .forEach fun path =>
    upholds.checkFile layout isCurrent language path

/-- A kind of states that is upheld is kept by every call that drops nothing. -/
theorem call (call : Call) (plain : call.drops = false) :
    Attempt.Keeps S.handler kind call.attempt fun _ => True := by
  cases call with
  | mainBranch => exact upholds.main.mono fun _ _ => trivial
  | isOnMain commit => exact upholds.main.bind fun main _ => .pure trivial
  | fork commit => exact upholds.main.bind fun main => upholds.fork main commit
  | merge commit => exact upholds.main.bind fun main => upholds.merge main commit
  | mergeFiles merge =>
    exact upholds.main.bind fun main isCurrent =>
      keeps_mergeFilesLookup upholds.quiet (fun commit => upholds.fork main commit isCurrent)
        merge
  | lastCommit path => exact upholds.last path
  | commitsAfter path start => exact upholds.commitsAfter path start
  | checkFiles layout language paths => exact upholds.checkFiles layout language paths
  | checkLanguage layout language =>
    exact (keeps_asked upholds.quiet rfl).andThen fun paths =>
      upholds.checkFiles layout language paths
  | _ => cases plain

end Upholds

/-- A kind of states that is sustained is kept by every call other than a refresh. -/
theorem Sustains.call {current : MainBranch → Prop} (sustains : S.Sustains kind current)
    (call : Call) (other : call ≠ .refresh) :
    Attempt.Keeps S.handler kind call.attempt fun _ => True := by
  cases call with
  | forgetFile path => exact sustains.forgetFile path
  | forgetMainBranch => exact sustains.forgetMain
  | refresh => contradiction
  | _ => exact sustains.toUpholds.call _ rfl

namespace Sturdy

variable (sturdy : S.Sturdy kind)
include sturdy

theorem forgetFile (path : String) :
    Attempt.Keeps S.handler kind (History.forgetFile path) fun _ => True :=
  keeps_forgetFile (fun holds => sturdy.removal holds) (fun holds => sturdy.removal holds) path

/-- A sturdy kind of states is sustained, whatever main branch is found. -/
theorem sustains : S.Sustains kind fun _ => True where
  quiet := sturdy.quiet
  main := sturdy.main
  fork main commit _ := keeps_forkLookup sturdy.quiet sturdy.fork main commit
  merge main commit _ := keeps_mergeLookup sturdy.quiet sturdy.merge main commit
  last := sturdy.last
  commitsAfter := sturdy.commitsAfter
  forgetFile := sturdy.forgetFile
  forgetMain := (keeps_drop fun holds => sturdy.removal holds).mapError

/-- A sturdy kind of states is kept by every call other than a refresh. -/
theorem call (call : Call) (other : call ≠ .refresh) :
    Attempt.Keeps S.handler kind call.attempt fun _ => True :=
  sturdy.sustains.call call other

/-- It is kept by the part of a refresh that finds the changed files. -/
theorem changedFiles (fresh : List Commit) :
    Attempt.Keeps S.handler kind (Refresh.changedFiles fresh) fun _ => True :=
  keeps_changedLookup sturdy.quiet sturdy.main fun main commit _ =>
    keeps_forkLookup sturdy.quiet sturdy.fork (main.extendedWith fresh) commit

end Sturdy

/-! ## Runs -/

/-- The states between the calls of a run. A call ends by itself or is stopped after some
requests; where runs start and which calls are made in which states is said by `initial` and
`allowed`. -/
inductive Reached (S : Surroundings σ) (initial : σ → Prop) (allowed : Call → σ → Prop) :
    σ → Prop where
  | start {state : σ} (starts : initial state) : Reached S initial allowed state
  | ended {state : σ} (before : Reached S initial allowed state) (call : Call)
    (allows : allowed call state) : Reached S initial allowed (S.after call.attempt state)
  | stopped {state : σ} (before : Reached S initial allowed state) (call : Call) (count : Nat)
    (allows : allowed call state) :
    Reached S initial allowed (S.stopped call.attempt count state)

/-- What holds where runs start and throughout every allowed call holds in every state that
is reached. -/
theorem Reached.always {initial : σ → Prop} {allowed : Call → σ → Prop} {always : σ → Prop}
    (start : ∀ state, initial state → always state)
    (throughout : ∀ call state, allowed call state → always state →
      Attempt.Triple S.handler always (· = state) call.attempt fun _ => always)
    {state : σ} (reached : S.Reached initial allowed state) : always state := by
  induction reached with
  | start starts => exact start _ starts
  | ended before call allows ih =>
    have met := triple_run (throughout call _ allows ih) rfl
    revert met
    cases S.result call.attempt _ with
    | ok value => exact id
    | error error => exact id
  | stopped before call count allows ih =>
    refine (throughout call _ allows ih _ rfl).runFor ?_ count
    rintro (error | value) last holds
    · exact holds
    · exact holds

end Surroundings

end LocaleWatch
