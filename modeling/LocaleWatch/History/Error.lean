import LocaleWatch.Cache.Error
import LocaleWatch.Repository.Error

/-!
# Errors of questions about history

A question fails because the repository or the cache refuses a request, or because the
history does not have the shape that the answer relies on. Asking again helps only in
the first case.
-/

namespace LocaleWatch

/-- How a history differs from the shape that an answer relies on. -/
inductive Inconsistency where
  | noMainAncestor (commit : CommitId)
  /-- This number of the merge's two parents is off the main branch, and it is not one. -/
  | parentsOffMain (merge : CommitId) (count : Nat)
  | noForkCommit (branch merge : CommitId)
  /-- Another one, in the words of the computation that found it. -/
  | reported (text : String)
  deriving DecidableEq, Repr

/-- The wording of an inconsistency. -/
def Inconsistency.text : Inconsistency → String
  | .noMainAncestor commit => "no ancestor of " ++ commit.text ++ " is on the main branch"
  | .parentsOffMain merge count =>
    "merge commit " ++ merge.text ++ " has " ++ toString count ++
      " parents off the main branch, expected 1"
  | .noForkCommit branch merge =>
    "branch parent " ++ branch.text ++ " of " ++ merge.text ++ " has no fork commit"
  | .reported text => text

/-- Why a question about history has no answer. -/
inductive HistoryError where
  | repository (error : RepositoryError)
  | cache (error : CacheError)
  | inconsistent (what : Inconsistency)
  | octopus (merge : CommitId) (parents : Nat)
  deriving DecidableEq, Repr

/-- The wording of an error. -/
def HistoryError.message : HistoryError → String
  | .repository error => error.message
  | .cache error => error.message
  | .inconsistent what => "commit graph consistency violation: " ++ what.text
  | .octopus merge parents =>
    "merge commit " ++ merge.text ++ " has " ++ toString parents ++
      " parents; octopus merges are not supported"

/-- Whether an error is a defect of the history, so that asking again is no use. -/
def HistoryError.isViolation : HistoryError → Bool
  | .repository _ | .cache _ => false
  | .inconsistent _ | .octopus _ _ => true

end LocaleWatch
