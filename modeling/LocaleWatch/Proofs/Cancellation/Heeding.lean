import LocaleWatch.Proofs.Calls

/-!
# How programs heed the token

Nothing forces a program of the tracker to look at the token. That a cancelled run goes no further
is a matter of its shape: a query that is refused because the run was cancelled is the last thing
that is asked, and an entry is read or written only right after the token was looked at, which ends
the program if it is set. Only removals are asked without a look. Sequences and loops of programs
of this shape are of this shape, so it is a fact about the few operations they are made of.

## Main results

* `Heeds.bind`, `Heeds.mapM`, `Heeds.forM` — sequences and loops.
* `Heeds.getUnless` — lookups in the cache.
* `Operation.heeds` — every question, check and refresh heeds the token.
-/

namespace LocaleWatch

/-- Whether an error says that the run was cancelled. -/
def HistoryError.IsCancelled : HistoryError → Prop
  | .repository (.cancelled _) | .cache (.cancelled _) => True
  | _ => False

/-- Whether a request reads or writes an entry. -/
def Tracking.Request.IsAccess : Tracking.Request → Prop
  | .read _ _ | .write _ _ _ => True
  | _ => False

/-- A program ends when a query is refused because the run was cancelled, and looks at the token
right before each reading and writing and ends if it is set. If it `removes`, it may ask for
removals, too. -/
inductive Heeds {α : Type} (removes : Prop) : Program Tracking (Except HistoryError α) → Prop where
  | done (result : Except HistoryError α) : Heeds removes (.done result)
  | query {query : Query}
    {next : Except RepositoryError query.Result → Program Tracking (Except HistoryError α)}
    {error : HistoryError}
    (refused : next (.error (.cancelled query.operation)) = .done (.error error))
    (cancelled : error.IsCancelled) (rest : ∀ told, Heeds removes (next told)) :
    Heeds removes (.ask (I := Tracking) (.query query) next)
  | access {request : Tracking.Request} {next : Bool → Program Tracking (Except HistoryError α)}
    {later : Tracking.Answer request → Program Tracking (Except HistoryError α)}
    {error : HistoryError} (stops : next true = .done (.error error))
    (goesOn : next false = .ask (I := Tracking) request later) (isAccess : request.IsAccess)
    (cancelled : error.IsCancelled) (rest : ∀ told, Heeds removes (later told)) :
    Heeds removes (.ask (I := Tracking) .isCancelled next)
  | delete {category key : String}
    {next : Except CacheError Unit → Program Tracking (Except HistoryError α)} (may : removes)
    (rest : ∀ told, Heeds removes (next told)) :
    Heeds removes (.ask (I := Tracking) (.delete category key) next)

namespace Heeds

variable {α β : Type} {removes : Prop}

theorem pure (value : α) : Heeds removes (Pure.pure value : History α).run := .done _

theorem throw (error : HistoryError) :
    Heeds removes (MonadExcept.throw error : History α).run := .done _

theorem bind {attempt : History α} {next : α → History β} (first : Heeds removes attempt.run)
    (second : ∀ value, Heeds removes (next value).run) :
    Heeds removes (attempt >>= next).run := by
  have sequence {program : Program Tracking (Except HistoryError α)}
      (first : Heeds removes program) :
      Heeds removes (program.bind (ExceptT.bindCont next)) := by
    induction first with
    | done result =>
      cases result with
      | ok value => exact second value
      | error error => exact .done _
    | query refused cancelled _ ih => exact .query (by rw [refused]; rfl) cancelled ih
    | access stops goesOn isAccess cancelled _ ih =>
      exact .access (by rw [stops]; rfl) (by rw [goesOn]; rfl) isAccess cancelled ih
    | delete may _ ih => exact .delete may ih
  exact sequence first

theorem mapM {f : α → History β} {items : List α} (heeds : ∀ item, Heeds removes (f item).run) :
    Heeds removes (items.mapM f).run := by
  induction items with
  | nil => exact pure []
  | cons item more ih =>
    rw [List.mapM_cons]
    exact (heeds item).bind fun value => ih.bind fun rest => pure _

theorem forM {f : α → History PUnit} {items : List α} (heeds : ∀ item, Heeds removes (f item).run) :
    Heeds removes (items.forM f).run := by
  induction items with
  | nil => exact pure ()
  | cons item more ih => exact (heeds item).bind fun _ => ih

/-! ## Queries and the cache -/

theorem ask (query : Query) : Heeds removes (Tracking.query query).run := by
  refine .query rfl trivial ?_
  rintro (error | value)
  · exact .done _
  · exact .done _

section

variable [JsonForm α] {category key : String}

theorem load :
    Heeds removes (Attempt.mapError HistoryError.cache (Cache.load α category key)).run := by
  refine .access rfl rfl trivial trivial ?_
  rintro (error | _ | bytes)
  · exact .done _
  · exact .done _
  · change Heeds removes (Program.bind (ExceptT.bindCont _ (Except.ok (some bytes))) _)
    cases decoded : JsonForm.decode? α bytes with
    | none =>
      simp only [ExceptT.bindCont, decoded]
      exact .done _
    | some value =>
      simp only [ExceptT.bindCont, decoded]
      exact .done _

theorem put (value : α) :
    Heeds removes (Attempt.mapError HistoryError.cache (Cache.put category key value)).run := by
  refine .access rfl rfl trivial trivial ?_
  rintro (error | done)
  · exact .done _
  · exact .done _

theorem getUnless {isInvalid : α → Bool} {compute : History α}
    (heeds : Heeds removes compute.run) :
    Heeds removes (Cache.getUnless isInvalid category key compute).run := by
  have anew : Heeds removes (do
      let value ← compute
      Attempt.mapError HistoryError.cache (Cache.put category key value)
      return value : History α).run :=
    heeds.bind fun value => (put value).bind fun _ => pure value
  refine load.bind fun found => ?_
  cases found with
  | none => exact anew
  | some value =>
    cases invalid : isInvalid value with
    | true =>
      simp only [invalid]
      exact anew
    | false =>
      simp only [invalid]
      exact pure value

end

theorem drop {category key : String} (may : removes) :
    Heeds removes (Attempt.mapError HistoryError.cache (Cache.drop category key)).run := by
  refine .delete may ?_
  rintro (error | done)
  · exact .done _
  · exact .done _

end Heeds

/-! ## What the tracker does -/

section

variable {removes : Prop}

theorem heeds_mainBranch : Heeds removes History.mainBranch.run :=
  (Heeds.getUnless (.ask _)).bind fun _ => .pure _

theorem heeds_forkWithin (main : MainBranch) (commit : CommitId) :
    Heeds removes (History.forkWithin main commit).run := by
  unfold History.forkWithin
  split
  · exact .pure none
  · refine Heeds.getUnless ((Heeds.ask _).bind fun ancestors => ?_)
    split
    · exact .pure _
    · exact .throw _

theorem heeds_mergeWithin (main : MainBranch) (commit : CommitId) :
    Heeds removes (History.mergeWithin main commit).run := by
  unfold History.mergeWithin
  split
  · exact .pure none
  · exact Heeds.getUnless ((Heeds.ask _).bind fun points => .pure _)

theorem heeds_mergeFilesWithin (main : MainBranch) (merge : CommitId) :
    Heeds removes (History.mergeFilesWithin main merge).run := by
  refine (Heeds.ask _).bind fun parents => ?_
  split
  · exact .pure []
  · exact .pure []
  · split
    · refine (heeds_forkWithin main _).bind fun fork => ?_
      split
      · exact .ask _
      · exact .throw _
    · exact .throw _
  · exact .throw _

theorem heeds_lastCommit (path : Path) : Heeds removes (History.lastCommit path).run :=
  Heeds.getUnless (.ask _)

theorem heeds_commitsAfter (path : Path) (start : CommitId) :
    Heeds removes (History.commitsAfter path start).run := by
  refine Heeds.load.bind fun kept => ?_
  cases found : (kept.getD .empty).get? start with
  | some commits =>
    simp only [found]
    exact .pure commits
  | none =>
    simp only [found]
    exact (Heeds.ask _).bind fun commits => (Heeds.put _).bind fun _ => .pure commits

theorem heeds_checkFile (layout : Layout) (main : MainBranch) (language path : String) :
    Heeds removes (Staleness.checkFile layout main language path).run := by
  have updates (origin : Path) (start : CommitId) :
      Heeds removes (Staleness.updates main origin start).run :=
    (heeds_commitsAfter origin start).bind fun commits => .mapM fun commit =>
      (heeds_mergeWithin main commit.id).bind fun merge => .pure _
  unfold Staleness.checkFile
  refine (heeds_lastCommit _).bind fun last => ?_
  cases last with
  | none =>
    refine (Heeds.ask _).bind fun originExists => ?_
    cases originExists <;> exact .pure _
  | some last =>
    refine (heeds_forkWithin main last.id).bind fun fork => ?_
    refine (heeds_mergeWithin main last.id).bind fun merge => ?_
    refine (Heeds.ask _).bind fun originExists => ?_
    cases originExists with
    | false => exact .pure _
    | true => exact (updates _ _).bind fun updates => .pure _

theorem heeds_checkFiles (layout : Layout) (language : String) (paths : List String) :
    Heeds removes (Staleness.checkFiles layout language paths).run :=
  heeds_mainBranch.bind fun main => .mapM fun path => heeds_checkFile layout main language path

theorem heeds_forgetFile (may : removes) (path : String) :
    Heeds removes (History.forgetFile path).run :=
  (Heeds.drop may).bind fun _ => .drop may

theorem heeds_refresh (may : removes) : Heeds removes Refresh.run.run := by
  have listings (fresh : List Commit) : Heeds removes (Refresh.listings fresh).run :=
    .mapM fun commit => (Heeds.ask _).bind fun files => .pure _
  have merged (fresh : List Commit) (merges : List CommitId) :
      Heeds removes (Refresh.mergedFiles fresh merges).run := by
    unfold Refresh.mergedFiles
    split
    · exact .pure []
    · refine heeds_mainBranch.bind fun main => ?_
      exact (Heeds.mapM fun merge => heeds_mergeFilesWithin _ merge).bind fun files => .pure _
  have changed (fresh : List Commit) : Heeds removes (Refresh.changedFiles fresh).run :=
    (listings fresh).bind fun listings => (merged fresh _).bind fun files => .pure _
  have record (fresh : List Commit) (files : List String) : Heeds removes (do
      let state : RefreshState := ⟨← Tracking.query .mainHead, files⟩
      Attempt.mapError HistoryError.cache (Cache.put Refresh.stateCategory "" state)
      return ⟨fresh, files⟩ : History Refresh.Outcome).run :=
    (Heeds.ask _).bind fun head => (Heeds.put _).bind fun _ => .pure _
  refine (Heeds.ask _).bind fun _ => (Heeds.ask _).bind fun fresh => ?_
  refine (changed fresh).bind fun files => ?_
  refine (Heeds.forM fun path => heeds_forgetFile may path).bind fun _ => ?_
  refine (Heeds.ask _).bind fun _ => ?_
  split
  · exact record fresh files
  · exact (Heeds.drop may).bind fun _ => record fresh files

end

/-! ## Operations -/

/-- What can be asked of the tracker: a call, a question that starts from a main branch which was
looked up before, or what the last refresh left. -/
inductive Operation where
  | call (call : Call)
  | forkWithin (main : MainBranch) (commit : CommitId)
  | mergeWithin (main : MainBranch) (commit : CommitId)
  | mergeFilesWithin (main : MainBranch) (merge : CommitId)
  | lastRefresh

namespace Operation

/-- What an operation gives. -/
@[reducible] def Result : Operation → Type
  | call made => made.Result
  | forkWithin _ _ | mergeWithin _ _ => Option Commit
  | mergeFilesWithin _ _ => List String
  | lastRefresh => Option RefreshState

/-- How an operation is carried out. -/
def attempt : (operation : Operation) → History operation.Result
  | call made => made.attempt
  | forkWithin main commit => History.forkWithin main commit
  | mergeWithin main commit => History.mergeWithin main commit
  | mergeFilesWithin main merge => History.mergeFilesWithin main merge
  | lastRefresh => Refresh.last

/-- Whether an operation takes no token: the two orders to forget something, which do nothing
else. -/
def TakesNoToken : Operation → Prop
  | call (.forgetFile _) | call .forgetMainBranch => True
  | _ => False

/-- Whether an operation removes entries. Of the operations that take a token only a refresh
does. -/
def Removes (operation : Operation) : Prop :=
  operation = call .refresh ∨ operation.TakesNoToken

/-- Every question, check and refresh heeds the token. -/
theorem heeds : (operation : Operation) → Heeds operation.Removes operation.attempt.run
  | call .mainBranch => heeds_mainBranch
  | call (.isOnMain _) => heeds_mainBranch.bind fun _ => .pure _
  | call (.fork commit) => heeds_mainBranch.bind fun main => heeds_forkWithin main commit
  | call (.merge commit) => heeds_mainBranch.bind fun main => heeds_mergeWithin main commit
  | call (.mergeFiles merge) => heeds_mainBranch.bind fun main => heeds_mergeFilesWithin main merge
  | call (.lastCommit path) => heeds_lastCommit path
  | call (.commitsAfter path start) => heeds_commitsAfter path start
  | call (.checkFiles layout language paths) => heeds_checkFiles layout language paths
  | call (.checkLanguage layout language) =>
    (Heeds.ask _).bind fun paths => heeds_checkFiles layout language paths
  | call (.forgetFile path) => heeds_forgetFile (.inr trivial) path
  | call .forgetMainBranch => .drop (.inr trivial)
  | call .refresh => heeds_refresh (.inl rfl)
  | forkWithin main commit => heeds_forkWithin main commit
  | mergeWithin main commit => heeds_mergeWithin main commit
  | mergeFilesWithin main merge => heeds_mergeFilesWithin main merge
  | lastRefresh => .load

end Operation

end LocaleWatch
