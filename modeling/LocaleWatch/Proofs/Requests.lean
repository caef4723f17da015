import LocaleWatch.Proofs.Program.Transcript
import LocaleWatch.Refresh
import LocaleWatch.Staleness

/-!
# What the parts of the tracker ask

Whatever is told, a lookup asks for the token, for the entry that keeps its answer and for the query
that finds it out, and nothing else. What kinds of requests an operation keeps to is therefore found
out from the lookups that it is made of, for any kind of requests that allows these lookups.

## Main results

* `asks_getUnless` — what a lookup asks.
* `Staleness.asks_checkFile` — what a check of one file asks.
* `Refresh.asks_changedFiles`, `Refresh.asks_run` — what a refresh asks.
-/

namespace LocaleWatch

open Attempt

variable {kind : Tracking.Request → Prop}

/-! ## Queries and entries -/

section

variable {α : Type} [JsonForm α] {category key : String}

theorem asks_query (query : Query) (may : kind (.query query)) :
    (Tracking.query query).Asks kind :=
  Asks.mapError ⟨may, fun _ => trivial⟩

theorem asks_load (token : kind .isCancelled) (may : kind (.read category key)) :
    (Attempt.mapError HistoryError.cache (Cache.load α category key)).Asks kind := by
  refine Asks.mapError (Asks.bind ⟨token, fun _ => trivial⟩ fun cancelled => ?_)
  cases cancelled with
  | true => exact .throw _
  | false =>
    have reads : (Tracking.read category key).Asks kind := ⟨may, fun _ => trivial⟩
    refine reads.bind fun held => ?_
    cases held with
    | none => exact .pure _
    | some bytes =>
      cases decoded : JsonForm.decode? α bytes with
      | none =>
        simp only [decoded]
        exact .throw _
      | some value =>
        simp only [decoded]
        exact .pure _

theorem asks_put (token : kind .isCancelled) (may : ∀ bytes, kind (.write category key bytes))
    (value : α) :
    (Attempt.mapError HistoryError.cache (Cache.put category key value)).Asks kind := by
  refine Asks.mapError (Asks.bind ⟨token, fun _ => trivial⟩ fun cancelled => ?_)
  cases cancelled with
  | true => exact .throw _
  | false => exact ⟨may _, fun _ => trivial⟩

theorem asks_drop (may : kind (.delete category key)) :
    (Attempt.mapError HistoryError.cache (Cache.drop category key)).Asks kind :=
  Asks.mapError ⟨may, fun _ => trivial⟩

theorem asks_getUnless {isInvalid : α → Bool} {compute : History α} (token : kind .isCancelled)
    (reads : kind (.read category key)) (writes : ∀ bytes, kind (.write category key bytes))
    (asks : compute.Asks kind) : (Cache.getUnless isInvalid category key compute).Asks kind := by
  have anew : Asks kind (do
      let value ← compute
      Attempt.mapError HistoryError.cache (Cache.put category key value)
      return value : History α) :=
    asks.bind fun value => (asks_put token writes value).bind fun _ => .pure value
  refine (asks_load token reads).bind fun found => ?_
  cases found with
  | none => exact anew
  | some value =>
    cases invalid : isInvalid value with
    | true =>
      simp only [invalid]
      exact anew
    | false =>
      simp only [invalid]
      exact .pure value

end

/-! ## Lookups -/

/-- Requests of a kind may be asked to look up an entry that is computed by a query. -/
structure Tracking.MayLookUp (kind : Tracking.Request → Prop) (category key : String)
    (query : Query) : Prop where
  reads : kind (.read category key)
  writes (bytes : List UInt8) : kind (.write category key bytes)
  asks : kind (.query query)

variable (token : kind .isCancelled)

include token

namespace History

theorem asks_mainBranch (may : Tracking.MayLookUp kind mainBranchCategory "" .mainBranch) :
    mainBranch.Asks kind :=
  (asks_getUnless token may.reads may.writes (asks_query _ may.asks)).bind fun _ => .pure _

theorem asks_forkWithin (main : MainBranch) {commit : CommitId}
    (may : Tracking.MayLookUp kind forkCategory commit.text (.ancestors commit)) :
    (forkWithin main commit).Asks kind := by
  unfold forkWithin
  split
  · exact .pure none
  · refine asks_getUnless token may.reads may.writes ?_
    refine (asks_query _ may.asks).bind fun ancestors => ?_
    split
    · exact .pure _
    · exact .throw _

theorem asks_mergeWithin (main : MainBranch) {commit : CommitId}
    (may : Tracking.MayLookUp kind mergeCategory commit.text (.mergePoints commit)) :
    (mergeWithin main commit).Asks kind := by
  unfold mergeWithin
  split
  · exact .pure none
  · refine asks_getUnless token may.reads may.writes ?_
    exact (asks_query _ may.asks).bind fun points => .pure _

theorem asks_lastCommit {path : Path}
    (may : Tracking.MayLookUp kind lastCommitCategory path.key (.lastCommit path)) :
    (lastCommit path).Asks kind :=
  asks_getUnless token may.reads may.writes (asks_query _ may.asks)

theorem asks_commitsAfter {path : Path} {start : CommitId}
    (may : Tracking.MayLookUp kind commitsAfterCategory path.key (.commitsAfter path start)) :
    (commitsAfter path start).Asks kind := by
  refine (asks_load token may.reads).bind fun kept => ?_
  cases found : (kept.getD .empty).get? start with
  | some commits =>
    simp only [found]
    exact .pure commits
  | none =>
    simp only [found]
    refine (asks_query _ may.asks).bind fun commits => ?_
    exact (asks_put token may.writes _).bind fun _ => .pure _

/-- The files of a merge are found out from its parents and the fork commit of one of them. -/
theorem asks_mergeFilesWithin (main : MainBranch) (merge : CommitId)
    (parents : kind (.query (.parents merge)))
    (files : ∀ first last, kind (.query (.filesBetween first last)))
    (forks : ∀ commit : CommitId,
      Tracking.MayLookUp kind forkCategory commit.text (.ancestors commit)) :
    (mergeFilesWithin main merge).Asks kind := by
  refine (asks_query _ parents).bind fun parents => ?_
  split
  · exact .pure _
  · exact .pure _
  · split
    · refine (asks_forkWithin token main (forks _)).bind fun fork => ?_
      split
      · exact asks_query _ (files _ _)
      · exact .throw _
    · exact .throw _
  · exact .throw _

end History

/-! ## Checks -/

/-- A check of a file looks up the last commit of the file, where the branch of that commit leaves
and joins the main branch, and the later commits of the origin file with their merge commits. -/
theorem Staleness.asks_checkFile (layout : Layout) (main : MainBranch) (language path : String)
    (last : Tracking.MayLookUp kind History.lastCommitCategory (layout.file language path).key
      (.lastCommit (layout.file language path)))
    (origin : kind (.query (.fileExists (layout.file layout.origin path))))
    (later : ∀ start, Tracking.MayLookUp kind History.commitsAfterCategory
      (layout.file layout.origin path).key (.commitsAfter (layout.file layout.origin path) start))
    (forks : ∀ commit : CommitId,
      Tracking.MayLookUp kind History.forkCategory commit.text (.ancestors commit))
    (merges : ∀ commit : CommitId,
      Tracking.MayLookUp kind History.mergeCategory commit.text (.mergePoints commit)) :
    (checkFile layout main language path).Asks kind := by
  have updated (start : CommitId) :
      (updates main (layout.file layout.origin path) start).Asks kind :=
    (History.asks_commitsAfter token (later start)).bind fun commits => .mapM fun commit _ =>
      (History.asks_mergeWithin token main (merges commit.id)).bind fun merge => .pure _
  unfold checkFile
  refine (History.asks_lastCommit token last).bind fun last => ?_
  cases last with
  | none =>
    refine (asks_query _ origin).bind fun originExists => ?_
    cases originExists <;> exact .pure _
  | some last =>
    refine (History.asks_forkWithin token main (forks last.id)).bind fun fork => ?_
    refine (History.asks_mergeWithin token main (merges last.id)).bind fun merge => ?_
    refine (asks_query _ origin).bind fun originExists => ?_
    cases originExists with
    | false => exact .pure _
    | true => exact (updated _).bind fun updates => .pure _

/-! ## Refreshes -/

namespace Refresh

variable (main : Tracking.MayLookUp kind History.mainBranchCategory "" .mainBranch)
  (forks : ∀ commit : CommitId,
    Tracking.MayLookUp kind History.forkCategory commit.text (.ancestors commit))

include main forks

/-- The files that fresh commits changed are listed commit by commit, and those of merges are looked
up on the main branch. -/
theorem asks_changedFiles (fresh : List Commit)
    (questions : ∀ query, query ≠ .pull → kind (.query query)) :
    (changedFiles fresh).Asks kind := by
  have listed : (listings fresh).Asks kind :=
    .mapM fun commit _ => (asks_query _ (questions _ (by nofun))).bind fun files => .pure _
  have merged (merges : List CommitId) : (mergedFiles fresh merges).Asks kind := by
    unfold mergedFiles
    split
    · exact .pure _
    · refine (History.asks_mainBranch token main).bind fun main => ?_
      exact Asks.bind (.mapM fun merge _ => History.asks_mergeFilesWithin token _ merge
        (questions _ (by nofun)) (fun _ _ => questions _ (by nofun)) forks) fun files => .pure _
  exact listed.bind fun listings => (merged _).bind fun files => .pure _

/-- A refresh asks the repository whatever it likes, looks up the main branch and fork commits,
removes what is kept about files and the main branch, and writes its state down. -/
theorem asks_run (questions : ∀ query, kind (.query query))
    (files : ∀ key, kind (.delete History.lastCommitCategory key) ∧
      kind (.delete History.commitsAfterCategory key))
    (moved : kind (.delete History.mainBranchCategory ""))
    (state : ∀ bytes, kind (.write stateCategory "" bytes)) : run.Asks kind := by
  have settled (fresh : List Commit) (changed : List String) : Asks kind (do
      let state : RefreshState := ⟨← Tracking.query .mainHead, changed⟩
      Attempt.mapError HistoryError.cache (Cache.put stateCategory "" state)
      return ⟨fresh, changed⟩ : History Outcome) :=
    (asks_query _ (questions _)).bind fun head => (asks_put token state _).bind fun _ => .pure _
  refine (asks_query _ (questions _)).bind fun _ => ?_
  refine (asks_query _ (questions _)).bind fun fresh => ?_
  refine (asks_changedFiles token main forks fresh fun query _ => questions query).bind
    fun changed => ?_
  refine Asks.bind (.forM fun file _ => ?_) fun _ => (asks_query _ (questions _)).bind fun _ => ?_
  · exact (asks_drop (files _).1).bind fun _ => asks_drop (files _).2
  · split
    · exact settled fresh changed
    · exact (asks_drop moved).bind fun _ => settled fresh changed

end Refresh

end LocaleWatch
