import LocaleWatch.Git.Repository

/-!
# Opening a working copy

The version-control library tells where the working copy of a place is and to which reference
`HEAD` leads there. If no main branch is named, it is the one that is checked out. Names of
remotes and branches are checked before they are used.
-/

namespace LocaleWatch

namespace GitRepository

/-- The root of the working copy at a place. -/
def workingCopyAt (place : Path) : Answering Path := do
  match ← Attempt.result (Host.workingCopy place) with
  | .ok (some directory) => return directory
  | .ok none => throw (.invalidInput
      (place.display ++ " is a bare repository; a working copy is required"))
  | .error .notFound => throw (.notFound place.display)
  | .error .other => throw .unreadable

/-- What stands before the name of a branch in its reference's name. -/
def branchMark : String := "refs/heads/"

/-- The branch that a reference's name stands for. -/
def branchOf? (name : String) : Option String :=
  if branchMark.toList.isPrefixOf name.toList then
    some (String.ofList (name.toList.drop branchMark.length))
  else none

/-- The branch that is checked out at a place. -/
def currentBranch (place : Path) : Answering String := do
  match ← Attempt.result (Host.head place) with
  | .error _ => throw .unreadable
  | .ok none => throw (.invalidInput "HEAD reference has no name")
  | .ok (some name) =>
    match branchOf? name with
    | some branch => return branch
    | none => throw (.invalidInput
        ("unexpected HEAD format: expected 'refs/heads/<branch>', got '" ++ name ++ "'"))

/-- Open the working copy at a place. -/
def openAt (place : Path) (remote : String) (branch : Option String) :
    Answering GitRepository := do
  RefName.check "remote" remote
  let workingCopy ← workingCopyAt place
  let current ← Attempt.result (currentBranch place)
  let branch ← match branch, current with
    | some branch, _ => pure branch
    | none, .ok branch => pure branch
    | none, .error _ => currentBranch place
  RefName.check "branch" branch
  return ⟨workingCopy, remote, branch, current.toOption = some branch⟩

end GitRepository

end LocaleWatch
