import LocaleWatch.History.MainBranch

/-!
# Where branches leave and join the main branch

A commit off the main branch has a fork commit, its nearest ancestor on the main branch,
and once it is merged a merge commit, the first commit on the main branch that brings it
in. A fork commit stays the same while the main branch grows, so it is kept for ever. A
merge commit that was found is kept for ever too; that none was found is looked into
again each time.
-/

namespace LocaleWatch

namespace History

/-- The category of the entries for fork commits. -/
def forkCategory : String := "fork_commit"

/-- The category of the entries for merge commits. -/
def mergeCategory : String := "merge_commit"

/-- The nearest ancestor of a commit on the main branch; none if the commit is there
itself. -/
def forkWithin (main : MainBranch) (commit : CommitId) : History (Option Commit) := do
  if main.contains commit then return none
  Cache.get forkCategory commit.text do
    let ancestors ← Tracking.query (.ancestors commit)
    match main.firstOn? ancestors with
    | some fork => return some fork
    | none => throw (.inconsistent (.noMainAncestor commit))

/-- The fork commit of a commit. -/
def fork (commit : CommitId) : History (Option Commit) := do
  forkWithin (← mainBranch) commit

/-- The first commit on the main branch that merges a commit; none if the commit is on
the main branch itself or not merged yet. -/
def mergeWithin (main : MainBranch) (commit : CommitId) : History (Option Commit) := do
  if main.contains commit then return none
  Cache.getUnless Option.isNone mergeCategory commit.text do
    let points ← Tracking.query (.mergePoints commit)
    return main.firstOn? points

/-- The merge commit of a commit. -/
def merge (commit : CommitId) : History (Option Commit) := do
  mergeWithin (← mainBranch) commit

/-- The files that a merge brought into the main branch: those in which the parent off
the main branch differs from its fork commit. A commit with one parent or none brought
in no branch. -/
def mergeFilesWithin (main : MainBranch) (merge : CommitId) : History (List String) := do
  let parents ← Tracking.query (.parents merge)
  match parents with
  | [] | [_] => return []
  | [first, second] =>
    match [first, second].filter (!main.contains ·) with
    | [branch] =>
      match ← forkWithin main branch with
      | some fork => Tracking.query (.filesBetween fork.id branch)
      | none => throw (.inconsistent (.noForkCommit branch merge))
    | off => throw (.inconsistent (.parentsOffMain merge off.length))
  | parents => throw (.octopus merge parents.length)

/-- The files that a merge brought into the main branch. -/
def mergeFiles (merge : CommitId) : History (List String) := do
  mergeFilesWithin (← mainBranch) merge

end History

end LocaleWatch
