import LocaleWatch.History.Branches
import LocaleWatch.History.Files
import LocaleWatch.Refresh.State
import LocaleWatch.Text.Sorted

/-!
# Refreshing

A refresh downloads what the remote has, drops every cache entry that the new commits
make stale, and only then moves the main branch forward. If it fails halfway, the dropped
entries are computed anew later, and none that is stale is left.
-/

namespace LocaleWatch

namespace Refresh

/-- The category of the entry for the state of the last refresh. -/
def stateCategory : String := "refresh_state"

/-- What a refresh did. -/
structure Outcome where
  fresh : List Commit
  changed : List String
  deriving DecidableEq, Repr

/-- Whether the kept main branch was dropped. -/
def Outcome.movedMain (outcome : Outcome) : Bool := !outcome.fresh.isEmpty

/-- Each commit with the files it changed itself. -/
def listings (commits : List Commit) : History (List (CommitId × List String)) :=
  commits.mapM fun commit => do
    return (commit.id, ← Tracking.query (.filesIn commit.id))

/-- The files that merges among fresh commits brought in. A fresh merge's first parent
may be fresh itself, so the main branch is taken as it is going to be. -/
def mergedFiles (fresh : List Commit) (merges : List CommitId) : History (List String) := do
  if merges.isEmpty then return []
  let main := (← History.mainBranch).extendedWith fresh
  return (← merges.mapM (History.mergeFilesWithin main)).flatten

/-- The files that fresh commits changed, ascending. A commit that lists no file of its
own is taken for a merge. -/
def changedFiles (fresh : List Commit) : History (List String) := do
  let listings ← listings fresh
  let merges := (listings.filter (·.2.isEmpty)).map (·.1)
  let merged ← mergedFiles fresh merges
  return Text.sortedDistinct (listings.flatMap (·.2) ++ merged)

/-- Fetch, drop every cache entry that the fetched commits make stale, and pull. -/
def run : History Outcome := do
  let () ← Tracking.query .fetch
  let fresh ← Tracking.query .freshCommits
  let changed ← changedFiles fresh
  changed.forM History.forgetFile
  let () ← Tracking.query .pull
  unless List.isEmpty fresh do History.forgetMainBranch
  let state : RefreshState := ⟨← Tracking.query .mainHead, changed⟩
  Attempt.mapError .cache (Cache.put stateCategory "" state)
  return ⟨fresh, changed⟩

/-- The state that the last successful refresh left. -/
def last : History (Option RefreshState) :=
  Attempt.mapError .cache (Cache.load RefreshState stateCategory "")

end Refresh

end LocaleWatch
