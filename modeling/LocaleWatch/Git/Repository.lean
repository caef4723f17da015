import LocaleWatch.Git.RefName
import LocaleWatch.Host
import LocaleWatch.Repository.Query
import LocaleWatch.Text.Blank

/-!
# Queries to the version-control program

Every query about history is one run of the version-control program, whose output has a
fixed form. Names of commits, branches and remotes come before a `--`, and paths after it,
so that neither is taken for the other.

What the working copy holds is looked up in the working copy while its main branch is
checked out, and in the main branch's tree otherwise.

No run is started once the token is set, and what a query found out while the token was
being set is thrown away.
-/

namespace LocaleWatch

open Text

/-- A working copy and the branch of it that is followed. -/
structure GitRepository where
  workingCopy : Path
  remote : String
  branch : String
  isCheckedOut : Bool
  deriving DecidableEq, Repr

namespace GitRepository

/-- A query that is being answered. -/
abbrev Answering (α : Type) : Type := Attempt Host RepositoryError α

variable (repository : GitRepository)

/-- The main branch's counterpart on the remote. -/
def counterpart : String := repository.remote ++ "/" ++ repository.branch

/-- Fail if the run was cancelled. -/
def goOn (operation : String) : Answering Unit := do
  if ← Host.isCancelled then throw (.cancelled operation)

/-- Run the version-control program and give what it printed. -/
def run (operation : String) (arguments : List String) : Answering String := do
  goOn operation
  let done ← Attempt.mapError (.system operation)
    (Host.git (.within repository.workingCopy arguments))
  if done.status ≠ 0 then
    throw (.commandFailed operation (" ".intercalate arguments)
      (trim (lossyText done.complaint)))
  return lossyText done.output

/-- Run the version-control program for a query that changes nothing: if the token was set
meanwhile, there is no answer. -/
def ask (operation : String) (arguments : List String) : Answering String := do
  let output ← repository.run operation arguments
  goOn operation
  return output

/-- The commits that a `log` prints. -/
def log (operation : String) (arguments : List String) : Answering (List Commit) := do
  let output ← repository.ask operation ("log" :: Commit.listingFormat :: arguments)
  readCommits operation output

/-- The entries of the main branch's tree at a path. -/
def treeEntries (operation : String) (flags : List String) (path : String) :
    Answering (List String) := do
  let output ← repository.ask operation
    (["ls-tree", "-z", "--name-only", "--full-tree"] ++ flags ++ [repository.branch, "--", path])
  return entries output

/-- Whether there is a file at a path. -/
def fileExists (operation : String) (path : Path) : Answering Bool := do
  if repository.isCheckedOut then
    goOn operation
    Attempt.mapError (.system operation) (Host.isThere (repository.workingCopy.join path))
  else
    let _ ← path.argument operation
    return (← repository.treeEntries operation [] path.key).contains path.key

/-- The files below a directory of the working copy; none if there is no such directory. -/
def workingFiles (operation : String) (directory : Path) : Answering (List String) := do
  goOn operation
  let top := repository.workingCopy.join directory
  let listing ← Host.walk top
  match listing.files operation with
  | .ok files => return files
  | .error (.system operation .notFound) =>
    match ← Attempt.result (Host.isThere top) with
    | .ok true => throw (.system operation .notFound)
    | _ => return []
  | .error error => throw error

/-- What remains of a path below a directory. -/
def relativeTo? (directory path : String) : Option String :=
  let start := directory.toList ++ ['/']
  if start.isPrefixOf path.toList then some (String.ofList (path.toList.drop start.length))
  else none

/-- The files below a directory of the main branch's tree. -/
def branchFiles (operation : String) (directory : Path) : Answering (List String) := do
  let _ ← directory.argument operation
  let paths ← repository.treeEntries operation ["-r"] directory.key
  return ascending (paths.filterMap (relativeTo? directory.key))

/-- The names of parents in the output that lists a commit and its parents. -/
def readParents (operation output : String) : Except RepositoryError (List CommitId) :=
  ((splitBlanks output).drop 1).mapM fun name =>
    (CommitId.parse name).mapError fun _ => .malformed operation (trim output)

/-- The head in the output that names it. -/
def readHead (operation output : String) : Except RepositoryError (Option CommitId) :=
  let name := trim output
  match CommitId.parse name with
  | .ok id => .ok (some id)
  | .error _ => .error (.malformed operation name)

/-- The head of the main branch. That a failing run has no complaint means that there is no
commit yet. -/
def head (operation : String) : Answering (Option CommitId) := do
  match ← Attempt.result
      (repository.ask operation ["rev-parse", "--verify", "--quiet", repository.branch]) with
  | .ok output => readHead operation output
  | .error (.commandFailed _ _ "") => return none
  | .error error => throw error

/-- Answer a query. -/
def answer (query : Query) : Answering query.Result :=
  let operation := query.operation
  match query with
  | .fileExists path => repository.fileExists operation path
  | .files directory =>
    if repository.isCheckedOut then repository.workingFiles operation directory
    else repository.branchFiles operation directory
  | .lastCommit path => do
    let path ← path.argument operation
    return (← repository.log operation ["-1", repository.branch, "--", path]).getLast?
  | .commitsAfter path start => do
    let path ← path.argument operation
    repository.log operation
      ["--reverse", start.text ++ ".." ++ repository.branch, "--", path]
  | .mainBranch => repository.log operation ["--first-parent", repository.branch, "--"]
  | .ancestors commit => repository.log operation ["--first-parent", commit.text, "--"]
  | .mergePoints commit =>
    repository.log operation ["--ancestry-path", "--merges", "--reverse",
      commit.text ++ ".." ++ repository.branch, "--"]
  | .filesIn commit => do
    return filledLines (← repository.ask operation
      ["diff-tree", "--no-commit-id", "--name-only", "-r", "--root", commit.text])
  | .parents commit => do
    readParents operation (← repository.ask operation
      ["rev-list", "--parents", "-n", "1", commit.text, "--"])
  | .filesBetween first last => do
    return filledLines (← repository.ask operation
      ["diff", "--name-only", first.text, last.text, "--"])
  | .fetch => do
    let _ ← repository.run operation ["fetch", "--quiet", repository.remote,
      "+refs/heads/" ++ repository.branch ++ ":refs/remotes/" ++ repository.remote ++ "/" ++
        repository.branch]
  | .pull => do
    let _ ← repository.run operation
      (if repository.isCheckedOut then ["merge", "--ff-only", "--quiet", repository.counterpart]
      else ["fetch", "--quiet", ".",
        "refs/remotes/" ++ repository.counterpart ++ ":refs/heads/" ++ repository.branch])
  | .freshCommits =>
    repository.log operation
      ["--first-parent", repository.branch ++ ".." ++ repository.counterpart, "--"]
  | .mainHead => repository.head operation

end GitRepository

end LocaleWatch
