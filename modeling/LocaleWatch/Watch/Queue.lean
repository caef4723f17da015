import LocaleWatch.Watch.Run

/-!
# The queue between the scheduler and the worker

A worker takes one request after the other from a queue that holds at most one. Requests
come from a scheduler, which never waits: it drops its request if the queue is full, and it
ends once the worker is gone or it sees that the run was cancelled. They also come from
others, who wait for room. One of the others shuts everything down: it cancels the run, waits
for the scheduler to end, asks the worker to stop, and waits for the worker; it may do so
again.

A worker that took the request to stop leaves, and drops the queue on its way out: what then
waits is never taken. Whatever a run comes to, the worker goes on with the next request.

What a party does between two looks at what it shares with the others is one event. The
events of the parties may come in any order: an event that cannot happen in a state changes
nothing.
-/

namespace LocaleWatch

namespace Watch

/-- How many requests the queue holds. -/
def capacity : Nat := 1

/-- What a worker can be asked for. -/
inductive Work where
  | run (languages : List String)
  | stop
  deriving DecidableEq, Repr

/-- What a worker does. -/
inductive Worker where
  | idle
  | busy
  /-- It was asked to stop, and the queue is still there. -/
  | leaving
  | gone
  deriving DecidableEq, Repr

/-- What the scheduler does. -/
inductive Scheduler where
  | awake
  | ready
  | asleep
  | ended
  deriving DecidableEq, Repr

/-- How far the shutdown has come. -/
inductive Closing where
  | none
  | joining
  | stopping
  | waiting
  | closed
  deriving DecidableEq, Repr

/-- The queue and those who use it. -/
structure State where
  languages : List String
  queue : List Work := []
  worker : Worker := .idle
  scheduler : Scheduler := .awake
  isCancelled : Bool := false
  closing : Closing := .none
  deriving DecidableEq, Repr

/-- What may happen. -/
inductive Event where
  | look
  | offer
  | wake
  | submit (work : Work)
  | take
  | finish (outcome : Except RunError Run.Summary)
  /-- The worker that was asked to stop drops the queue. -/
  | leave
  | cancel
  /-- The shutdown goes one step further, or begins. -/
  | close

/-- What an event came to. -/
inductive Effect where
  | blocked
  | accepted (work : Work)
  | dropped
  | schedulerEnded
  | workerGone
  | started (languages : List String)
  | stopped
  | cancelled
  | noted
  deriving DecidableEq, Repr

/-- Put a request into the queue; `full` says what happens if there is no room, and `gone` if
there is no queue any more. -/
def State.send (state : State) (work : Work) (full gone : State × Effect) : State × Effect :=
  if state.worker = .gone then gone
  else if state.queue.length < capacity then
    ({ state with queue := state.queue ++ [work] }, .accepted work)
  else full

/-- What happens to the state in an event, and what comes of it. -/
def step (state : State) : Event → State × Effect
  | .look =>
    match state.scheduler with
    | .awake =>
      if state.isCancelled then ({ state with scheduler := .ended }, .schedulerEnded)
      else ({ state with scheduler := .ready }, .noted)
    | .asleep =>
      if state.isCancelled then ({ state with scheduler := .ended }, .schedulerEnded)
      else (state, .noted)
    | .ready | .ended => (state, .blocked)
  | .offer =>
    if state.scheduler = .ready then
      let asleep := { state with scheduler := .asleep }
      asleep.send (.run state.languages) (asleep, .dropped)
        ({ state with scheduler := .ended }, .schedulerEnded)
    else (state, .blocked)
  | .wake =>
    if state.scheduler = .asleep then ({ state with scheduler := .awake }, .noted)
    else (state, .blocked)
  | .submit work => state.send work (state, .blocked) (state, .workerGone)
  | .take =>
    match state.worker, state.queue with
    | .idle, .run languages :: rest =>
      ({ state with queue := rest, worker := .busy }, .started languages)
    | .idle, .stop :: rest => ({ state with queue := rest, worker := .leaving }, .stopped)
    | _, _ => (state, .blocked)
  | .finish _ =>
    if state.worker = .busy then ({ state with worker := .idle }, .noted)
    else (state, .blocked)
  | .leave =>
    if state.worker = .leaving then ({ state with queue := [], worker := .gone }, .noted)
    else (state, .blocked)
  | .cancel => ({ state with isCancelled := true }, .cancelled)
  | .close =>
    match state.closing with
    | .none | .closed => ({ state with isCancelled := true, closing := .joining }, .cancelled)
    | .joining =>
      if state.scheduler = .ended then ({ state with closing := .stopping }, .noted)
      else (state, .blocked)
    | .stopping =>
      let waiting := { state with closing := .waiting }
      waiting.send .stop (state, .blocked) (waiting, .workerGone)
    | .waiting =>
      if state.worker = .gone then ({ state with closing := .closed }, .noted)
      else (state, .blocked)

/-- What the scheduler does in one interval, from the end of the last one on. -/
def tick : List Event := [.wake, .look, .offer]

/-- The states and effects of events that happen one after the other. -/
def runEvents (state : State) : List Event → State × List Effect
  | [] => (state, [])
  | event :: rest =>
    let (next, effect) := step state event
    let (last, effects) := runEvents next rest
    (last, effect :: effects)

end Watch

end LocaleWatch
