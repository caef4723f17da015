import LocaleWatch.Cache.Keyed
import LocaleWatch.History.Starts

/-!
# The history of one file

A file's last commit, and its commits after a start point, are kept under the file's
key, whatever spelling of the path asks for them. All start points of a file share one
entry, so that forgetting a file forgets every one of them.
-/

namespace LocaleWatch

namespace History

/-- The category of the entries for last commits. -/
def lastCommitCategory : String := "file_last_commit"

/-- The category of the entries for commits after start points. -/
def commitsAfterCategory : String := "file_commits_after"

/-- The last commit that touched a file. -/
def lastCommit (path : Path) : History (Option Commit) :=
  Cache.get lastCommitCategory path.key (Tracking.query (.lastCommit path))

/-- The commits that touched a file after a commit, oldest first. -/
def commitsAfter (path : Path) (start : CommitId) : History (List Commit) := do
  let kept ← Attempt.mapError .cache (Cache.load CommitsByStart commitsAfterCategory path.key)
  let starts := kept.getD .empty
  match starts.get? start with
  | some commits => return commits
  | none =>
    let commits ← Tracking.query (.commitsAfter path start)
    Attempt.mapError .cache
      (Cache.put commitsAfterCategory path.key (starts.insert start commits))
    return commits

/-- Drop what is kept about a file. -/
def forgetFile (path : String) : History Unit := do
  let key := (Path.ofText path).key
  Attempt.mapError .cache (Cache.drop lastCommitCategory key)
  Attempt.mapError .cache (Cache.drop commitsAfterCategory key)

end History

end LocaleWatch
