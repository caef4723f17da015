import LocaleWatch.History.Branches
import LocaleWatch.History.Files
import LocaleWatch.Layout
import LocaleWatch.LocalizedFile

/-!
# Finding stale files

A localized file whose last commit was made on the main branch has seen the origin file as
of that commit. One whose last commit was made on a branch has for certain seen it only as
of the fork commit. The commits to the origin file after that point are the updates it
lacks. A localized file that was never committed has no such point.
-/

namespace LocaleWatch

namespace Staleness

/-- The commits to an origin file after a start point, each with its merge commit. -/
def updates (main : MainBranch) (origin : Path) (start : CommitId) :
    History (List OriginUpdate) := do
  let commits ← History.commitsAfter origin start
  commits.mapM fun commit => do
    return ⟨commit, ← History.mergeWithin main commit.id⟩

/-- How an origin file relates to a localized file that lacks these updates. -/
def status (originExists : Bool) (updates : List OriginUpdate) : OriginStatus :=
  if !originExists then .missing
  else if updates.isEmpty then .unchanged
  else .modified

/-- The state of one localized file. -/
def checkFile (layout : Layout) (main : MainBranch) (language path : String) :
    History LocalizedFile := do
  let localized := layout.file language path
  let origin := layout.file layout.origin path
  let lastCommit ← History.lastCommit localized
  let (fork, merge) ← match lastCommit with
    | some last => do
      let fork ← History.forkWithin main last.id
      let merge ← History.mergeWithin main last.id
      pure (fork, merge)
    | none => pure (none, none)
  let originExists ← Tracking.query (.fileExists origin)
  let updates ← match lastCommit, originExists with
    | some last, true => updates main origin ((fork.getD last).id)
    | _, _ => pure []
  return ⟨path, lastCommit, fork, merge, status originExists updates, updates⟩

/-- The states of some files of a language, in their order. -/
def checkFiles (layout : Layout) (language : String) (paths : List String) :
    History (List LocalizedFile) := do
  let main ← History.mainBranch
  paths.mapM (checkFile layout main language)

/-- The states of all files of a language. -/
def checkLanguage (layout : Layout) (language : String) : History (List LocalizedFile) := do
  let paths ← Tracking.query (.files (layout.languageDirectory language))
  checkFiles layout language paths

end Staleness

end LocaleWatch
