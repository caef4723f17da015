import LocaleWatch.Path
import LocaleWatch.Repository.Error

/-!
# What a repository can be asked

The tracker knows a repository only through these queries. Paths are relative to the
root of the working copy. Only `fetch` and `pull` change anything.
-/

namespace LocaleWatch

/-- A question to a repository, or one of the two orders `fetch` and `pull`. -/
inductive Query where
  | fileExists (path : Path)
  | files (directory : Path)
  | lastCommit (path : Path)
  | commitsAfter (path : Path) (start : CommitId)
  | mainBranch
  | ancestors (commit : CommitId)
  /-- The merges between a commit and the head of the main branch that descend from the
  commit, oldest first. -/
  | mergePoints (commit : CommitId)
  /-- The files that a commit itself changed; none for a merge without conflicts. -/
  | filesIn (commit : CommitId)
  | parents (commit : CommitId)
  | filesBetween (first last : CommitId)
  | fetch
  | pull
  /-- The downloaded commits, along first parents, that the main branch lacks, newest
  first. -/
  | freshCommits
  | mainHead
  deriving DecidableEq, Repr

namespace Query

/-- What a query finds out. -/
@[reducible] def Result : Query → Type
  | fileExists _ => Bool
  | files _ | filesIn _ | filesBetween _ _ => List String
  | lastCommit _ => Option Commit
  | commitsAfter _ _ | mainBranch | ancestors _ | mergePoints _ | freshCommits => List Commit
  | parents _ => List CommitId
  | fetch | pull => Unit
  | mainHead => Option CommitId

/-- The name by which errors call a query. -/
def operation : Query → String
  | fileExists _ => "file_exists"
  | files _ => "list_files"
  | lastCommit _ => "find_file_last_commit"
  | commitsAfter _ _ => "find_file_commits_after"
  | mainBranch => "list_main_branch_commits"
  | ancestors _ => "list_ancestor_commits"
  | mergePoints _ => "list_merge_points"
  | filesIn _ => "list_files_in_commit"
  | parents _ => "list_commit_parents"
  | filesBetween _ _ => "list_files_between_commits"
  | fetch => "fetch"
  | pull => "pull"
  | freshCommits => "list_fresh_commits"
  | mainHead => "resolve_main_head"

end Query

end LocaleWatch
