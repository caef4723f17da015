import LocaleWatch.Git.Opening
import LocaleWatch.Git.Tracking
import LocaleWatch.Watch.Queue
import LocaleWatch.Watch.Run

/-!
# Watching

To watch is to have a scheduler ask a worker for a run again and again, until the run is
cancelled. A run that fails does not stop the worker: what failed is tried again with the
next request.
-/

namespace LocaleWatch

namespace Watch

/-- Let an event happen. A run that it starts is carried out, and its outcome, which is
shown by its reports, is not kept. -/
def perform (settings : Run.Settings) (state : State) (event : Event) :
    Program Service (State × Effect) := do
  match step state event with
  | (state, .started languages) => do
    let outcome ← (Run.once settings languages).run
    return ((step state (.finish outcome)).1, .started languages)
  | (state, .cancelled) => do
    Program.inSecond (Program.ask (I := Host) .cancel .done)
    return (state, .cancelled)
  | next => return next

/-- Let events happen one after the other, and say what came of each. -/
def performAll (settings : Run.Settings) (state : State) :
    List Event → Program Service (State × List Effect)
  | [] => return (state, [])
  | event :: rest => do
    let (state, effect) ← perform settings state event
    let (state, effects) ← performAll settings state rest
    return (state, effect :: effects)

/-- Let a worker, who has nothing else to do, work through a list of requests. It ends at
the first request to stop, and when there are no more. -/
def work (settings : Run.Settings) : List Work → Program Service Unit
  | [] | .stop :: _ => return ()
  | .run languages :: rest => do
    let _ ← (Run.once settings languages).run
    work settings rest

/-- The events of watching from the start to the end, when the shutdown begins after the
`rounds`-th run: the scheduler is stopped first, then the worker. -/
def events (rounds : Nat) : List Event :=
  (List.replicate rounds (tick ++ [.take])).flatten ++
    [.close, .look, .close, .close, .take, .leave, .close]

/-- What is needed to open a working copy. -/
structure Place where
  path : Path
  remote : String
  branch : Option String
  deriving DecidableEq, Repr

/-- Check the languages and open the working copy. -/
def prepare (place : Place) (languages : List String) :
    Attempt Host RunError GitRepository := do
  match LanguageCode.checkAll languages with
  | .error error => throw (.language error)
  | .ok () =>
    Attempt.mapError .opening (GitRepository.openAt place.path place.remote place.branch)

/-- Watch a working copy for a number of runs. -/
def watch (place : Place) (settings : Run.Settings) (languages : List String) (rounds : Nat) :
    Attempt Host RunError Unit := do
  let repository ← prepare place languages
  let program := performAll settings { languages } (events rounds)
  let _ ← Attempt.ofProgram (program.resolveFirst (repository.meaning settings.folder))

end Watch

end LocaleWatch
