import LocaleWatch.Commit.Line
import LocaleWatch.Fault

/-!
# Errors of repository queries

Every error of a query names the query's operation, so that a report of it says what
was being asked.
-/

namespace LocaleWatch

open Text

/-- Why a repository gave no answer. -/
inductive RepositoryError where
  /-- The version-control program failed: the operation, the program's arguments and
  what it printed as the reason. -/
  | commandFailed (operation arguments reason : String)
  | malformed (operation line : String)
  | unreadable
  | notFound (place : String)
  | system (operation : String) (fault : Fault)
  | invalidInput (reason : String)
  | cancelled (operation : String)
  deriving DecidableEq, Repr

/-- The wording of an error. -/
def RepositoryError.message : RepositoryError → String
  | .commandFailed operation arguments reason =>
    operation ++ " failed (git " ++ arguments ++ "): " ++ reason
  | .malformed operation line => operation ++ ": malformed output line " ++ quote line
  | .unreadable => "git operation failed"
  | .notFound place => "repository not found at " ++ place
  | .system operation fault => operation ++ ": IO error: " ++ fault.message
  | .invalidInput reason => "invalid input: " ++ reason
  | .cancelled operation => operation ++ " cancelled"

/-- The commits that an operation printed, one per line. -/
def readCommits (operation output : String) : Except RepositoryError (List Commit) :=
  (Commit.ofLines (filledLines output)).mapError (.malformed operation)

/-- The commit that one line of an operation's output shows. -/
def readCommit (operation line : String) : Except RepositoryError Commit :=
  match Commit.ofLine? line with
  | some commit => .ok commit
  | none => .error (.malformed operation line)

end LocaleWatch
