import LocaleWatch.History.Error
import LocaleWatch.Program
import LocaleWatch.Repository.Query

/-!
# What the tracker asks

Every question about history and localized files is a program that asks three things: a
token, which tells whether the run was cancelled; the repository; and a store that keeps
bytes under a category and a key.
-/

namespace LocaleWatch

namespace Tracking

/-- A request of the tracker. -/
inductive Request where
  | isCancelled
  | cancel
  | query (query : Query)
  | read (category key : String)
  | write (category key : String) (bytes : List UInt8)
  | delete (category key : String)
  | holds (category key : String)
  deriving DecidableEq, Repr

/-- The answers to a request. -/
def Answer : Request → Type
  | .isCancelled => Bool
  | .cancel => Unit
  | .query query => Except RepositoryError query.Result
  | .read _ _ => Except CacheError (Option (List UInt8))
  | .write _ _ _ | .delete _ _ => Except CacheError Unit
  | .holds _ _ => Except CacheError Bool

end Tracking

/-- The interface of the tracker. -/
def Tracking : Interface := ⟨Tracking.Request, Tracking.Answer⟩

/-- A program of the tracker that may fail as a question about history does. -/
abbrev History (α : Type) : Type := Attempt Tracking HistoryError α

namespace Tracking

/-- Whether the run was cancelled. -/
def isCancelled {ε : Type} : Attempt Tracking ε Bool :=
  .ofProgram (Program.ask (I := Tracking) .isCancelled .done)

/-- Cancel the run. -/
def cancel {ε : Type} : Attempt Tracking ε Unit :=
  .ofProgram (Program.ask (I := Tracking) .cancel .done)

/-- Read from the store. -/
def read (category key : String) : Attempt Tracking CacheError (Option (List UInt8)) :=
  .ofResult (Program.ask (I := Tracking) (.read category key) .done)

/-- Write to the store. -/
def write (category key : String) (bytes : List UInt8) : Attempt Tracking CacheError Unit :=
  .ofResult (Program.ask (I := Tracking) (.write category key bytes) .done)

/-- Delete from the store. -/
def delete (category key : String) : Attempt Tracking CacheError Unit :=
  .ofResult (Program.ask (I := Tracking) (.delete category key) .done)

/-- Whether the store holds an entry. -/
def holds (category key : String) : Attempt Tracking CacheError Bool :=
  .ofResult (Program.ask (I := Tracking) (.holds category key) .done)

/-- Ask the repository. -/
def query (query : Query) : History query.Result :=
  .mapError .repository (.ofResult (Program.ask (I := Tracking) (.query query) .done))

end Tracking

end LocaleWatch
