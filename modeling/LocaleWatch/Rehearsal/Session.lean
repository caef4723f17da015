import LocaleWatch.Cache.Store
import LocaleWatch.Rehearsal.Machine
import LocaleWatch.Rehearsal.Tables
import LocaleWatch.Watch.Run

/-!
# A rehearsal of the tracker

In a rehearsal the repository is given by tables and the cache lies on a machine. Queries
can be made to fail, and to set the token when they are done. Every query that is answered
and every use of the cache is written down.
-/

namespace LocaleWatch

/-- How a query is made to fail. -/
inductive Trouble where
  | command
  | malformed
  | invalid
  | notFound
  | system
  deriving DecidableEq, Repr

/-- What a query asks about, as texts. -/
def Query.arguments : Query → List String
  | .fileExists path | .files path | .lastCommit path => [path.display]
  | .commitsAfter path start => [path.display, start.text]
  | .mainBranch | .fetch | .pull | .freshCommits | .mainHead => []
  | .ancestors commit | .mergePoints commit | .filesIn commit | .parents commit => [commit.text]
  | .filesBetween first last => [first.text, last.text]

/-- The error of a query that is made to fail. -/
def Trouble.error (query : Query) : Trouble → RepositoryError
  | .command => .commandFailed query.operation (" ".intercalate query.arguments)
      "fatal: scripted"
  | .malformed => .malformed query.operation "bad \"line\""
  | .invalid => .invalidInput "scripted"
  | .notFound => .notFound "scripted"
  | .system => .system query.operation .brokenPipe

/-- A use of the cache. -/
inductive CacheUse where
  | read (category key : String) (found : Option Bool)
  | write (category key : String) (bytes : List UInt8)
  | delete (category key : String)
  | looked (category key : String)
  deriving DecidableEq, Repr

/-- A rehearsal. -/
structure Session where
  tables : Tables := {}
  troubles : Table String Trouble := []
  cancelling : List String := []
  machine : Machine
  folder : CacheFolder
  queries : List Query := []
  uses : List CacheUse := []
  deriving DecidableEq, Repr

namespace Session

/-- Run a program on the machine of a rehearsal. -/
def onMachine {α : Type} (program : Program Host α) (session : Session) : α × Session :=
  let (value, machine) := session.machine.run program
  (value, { session with machine })

/-- Note a use of the cache. -/
def note (use : CacheUse) (session : Session) : Session :=
  { session with uses := use :: session.uses }

/-- Answer a query. -/
def answer (query : Query) (session : Session) :
    Except RepositoryError query.Result × Session :=
  if session.machine.isCancelled then (.error (.cancelled query.operation), session)
  else
    let session := { session with queries := query :: session.queries }
    match session.troubles.lookup query.operation with
    | some trouble => (.error (trouble.error query), session)
    | none =>
      let (result, tables) := session.tables.answer query
      let isCancelled := session.cancelling.contains query.operation
      (result, { session with tables, machine := { session.machine with isCancelled } })

/-- How a rehearsal answers the tracker. -/
def handleTracking : Program.Handler Tracking Session
  | .isCancelled, session => (session.machine.isCancelled, session)
  | .cancel, session =>
    ((), { session with machine := { session.machine with isCancelled := true } })
  | .query query, session => session.answer query
  | .read category key, session =>
    let (result, session) := session.onMachine (session.folder.readEntry category key).run
    let found := match result with
      | .ok bytes => some bytes.isSome
      | .error _ => none
    (result, session.note (.read category key found))
  | .write category key bytes, session =>
    (session.note (.write category key bytes)).onMachine
      (session.folder.writeEntry category key bytes).run
  | .delete category key, session =>
    (session.note (.delete category key)).onMachine (session.folder.removeEntry category key).run
  | .holds category key, session =>
    (session.note (.looked category key)).onMachine (session.folder.hasEntry category key).run

/-- How a rehearsal answers a run. -/
def handle : Program.Handler Service Session
  | .inl r, session => handleTracking r session
  | .inr r, session => session.onMachine (.ask (I := Host) r .done)

end Session

end LocaleWatch
