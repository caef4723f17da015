import LocaleWatch.Rehearsal.Machine
import LocaleWatch.Watch

/-!
# What becomes of requests

Three parties meet at the queue: the scheduler, who never waits, the worker, and whoever waits for
room, among them the one who shuts everything down. Their events may come in any order. An account
is kept of it: the requests that were accepted, and the runs that were started. As long as the
worker was not asked to stop, what was accepted is what was started followed by what waits; so
nothing is lost and nothing runs twice. Once it was, what was started is what was accepted before
the request to stop.

To the queue and the worker an event does one of six things, whoever it comes from (`Move`); the
account follows from these alone.

## Main results

* `move_step` — what an event can do to the queue and the worker.
* `ledger_runEvents` — the account is right after any events.
* `orderly_runEvents` — who shuts down asks the worker to stop after the scheduler has ended.
* `run_performAll` — events that are carried out, each run's end being one more event.
* `requests_served` — all of it, and what each party is told on the way.
-/

namespace LocaleWatch

namespace Watch

/-! ## The account -/

/-- The requests that were accepted into the queue, in order. -/
def accepted (effects : List Effect) : List Work :=
  effects.filterMap fun
    | .accepted work => some work
    | _ => none

/-- The languages of the runs that were started, in order. -/
def started (effects : List Effect) : List (List String) :=
  effects.filterMap fun
    | .started languages => some languages
    | _ => none

/-- The account of the requests in a state. -/
structure Ledger (accepted : List Work) (started : List (List String)) (state : State) : Prop where
  bounded : state.queue.length ≤ capacity
  /-- Until the worker is asked to stop, each request that was accepted was started, in order, or
  waits. -/
  working : state.worker = .idle ∨ state.worker = .busy →
    accepted = started.map .run ++ state.queue
  /-- From then on, those were started that were accepted before the request to stop. -/
  stopped : state.worker = .leaving ∨ state.worker = .gone →
    .stop ∈ accepted ∧ started.map .run = accepted.takeWhile (· ≠ .stop)

/-- What an event can do to the queue and the worker. -/
inductive Move (state next : State) : Effect → Prop where
  | keep {effect : Effect} (queue : next.queue = state.queue) (worker : next.worker = state.worker)
    (notAccepted : ∀ work, effect ≠ .accepted work)
    (notStarted : ∀ languages, effect ≠ .started languages) : Move state next effect
  | put (work : Work) (here : state.worker ≠ .gone) (room : state.queue.length < capacity)
    (queue : next.queue = state.queue ++ [work]) (worker : next.worker = state.worker) :
    Move state next (.accepted work)
  | start (languages : List String) (idle : state.worker = .idle)
    (queue : state.queue = .run languages :: next.queue) (worker : next.worker = .busy) :
    Move state next (.started languages)
  | finish (busy : state.worker = .busy) (queue : next.queue = state.queue)
    (worker : next.worker = .idle) : Move state next .noted
  | stop (idle : state.worker = .idle) (queue : state.queue = .stop :: next.queue)
    (worker : next.worker = .leaving) : Move state next .stopped
  | leave (leaving : state.worker = .leaving) (queue : next.queue = [])
    (worker : next.worker = .gone) : Move state next .noted

theorem Move.rfl {state : State} {effect : Effect} (notAccepted : ∀ work, effect ≠ .accepted work)
    (notStarted : ∀ languages, effect ≠ .started languages) : Move state state effect :=
  .keep (.refl _) (.refl _) notAccepted notStarted

/-- To send is to put a request into the queue, or what is done if that is not possible. -/
theorem move_send {state sender : State} {work : Work} {full gone : State × Effect}
    (queue : sender.queue = state.queue) (worker : sender.worker = state.worker)
    (ifFull : Move state full.1 full.2) (ifGone : Move state gone.1 gone.2) :
    Move state (sender.send work full gone).1 (sender.send work full gone).2 := by
  unfold State.send
  split
  · exact ifGone
  · next here =>
    split
    · next room =>
      rw [worker] at here
      rw [queue] at room
      exact .put work here room (by simp [queue]) worker
    · exact ifFull

/-- What an event can do to the queue and the worker. -/
theorem move_step (state : State) (event : Event) :
    Move state (step state event).1 (step state event).2 := by
  cases event with
  | look =>
    simp only [step]
    split
    · split <;> exact .keep rfl rfl (by simp) (by simp)
    · split <;> exact .keep rfl rfl (by simp) (by simp)
    · exact .rfl (by simp) (by simp)
    · exact .rfl (by simp) (by simp)
  | offer =>
    simp only [step]
    split
    · exact move_send rfl rfl (.keep rfl rfl (by simp) (by simp))
        (.keep rfl rfl (by simp) (by simp))
    · exact .rfl (by simp) (by simp)
  | wake => simp only [step]; split <;> exact .keep rfl rfl (by simp) (by simp)
  | submit work => exact move_send rfl rfl (.rfl (by simp) (by simp)) (.rfl (by simp) (by simp))
  | take =>
    simp only [step]
    split
    · next languages rest idle queue => exact .start languages idle queue rfl
    · next rest idle queue => exact .stop idle queue rfl
    · exact .rfl (by simp) (by simp)
  | finish outcome =>
    simp only [step]
    split
    · next busy => exact .finish busy rfl rfl
    · exact .rfl (by simp) (by simp)
  | leave =>
    simp only [step]
    split
    · next leaving => exact .leave leaving rfl rfl
    · exact .rfl (by simp) (by simp)
  | cancel => exact .keep rfl rfl (by simp [step]) (by simp [step])
  | close =>
    simp only [step]
    split
    · exact .keep rfl rfl (by simp) (by simp)
    · exact .keep rfl rfl (by simp) (by simp)
    · split <;> exact .keep rfl rfl (by simp) (by simp)
    · exact move_send rfl rfl (.rfl (by simp) (by simp)) (.keep rfl rfl (by simp) (by simp))
    · split <;> exact .keep rfl rfl (by simp) (by simp)

/-! ## The account after any events -/

@[simp] theorem accepted_append (first second : List Effect) :
    accepted (first ++ second) = accepted first ++ accepted second :=
  List.filterMap_append

@[simp] theorem started_append (first second : List Effect) :
    started (first ++ second) = started first ++ started second :=
  List.filterMap_append

theorem accepted_other {effect : Effect} (other : ∀ work, effect ≠ .accepted work) :
    accepted [effect] = [] := by
  cases effect <;> simp_all [accepted]

theorem started_other {effect : Effect} (other : ∀ languages, effect ≠ .started languages) :
    started [effect] = [] := by
  cases effect <;> simp_all [started]

/-- What is accepted after a request to stop is not before it. -/
theorem takeWhile_append_of_stop {requests : List Work} (stop : .stop ∈ requests)
    (late : List Work) :
    (requests ++ late).takeWhile (· ≠ .stop) = requests.takeWhile (· ≠ .stop) := by
  induction requests with
  | nil => contradiction
  | cons work rest ih =>
    by_cases first : work = .stop
    · simp [first]
    · have later : .stop ∈ rest := by simpa [Ne.symm first] using stop
      simpa [List.takeWhile_cons, first] using ih later

theorem takeWhile_runs (runs : List (List String)) (late : List Work) :
    (runs.map Work.run ++ .stop :: late).takeWhile (· ≠ .stop) = runs.map Work.run := by
  induction runs with
  | nil => simp
  | cons languages rest ih => simp

theorem Ledger.start (languages : List String) : Ledger [] [] { languages } where
  bounded := Nat.zero_le _
  working _ := rfl
  stopped out := by simp at out

/-- The account stays right with whatever an event does. -/
theorem Ledger.move {before : List Work} {runs : List (List String)} {state next : State}
    {effect : Effect} (ledger : Ledger before runs state) (move : Move state next effect) :
    Ledger (before ++ accepted [effect]) (runs ++ started [effect]) next := by
  cases move with
  | keep queue worker notAccepted notStarted =>
    rw [accepted_other notAccepted, started_other notStarted, List.append_nil, List.append_nil]
    exact ⟨queue ▸ ledger.bounded, by rw [queue, worker]; exact ledger.working,
      by rw [worker]; exact ledger.stopped⟩
  | put work here room queue worker =>
    rw [started_other (by simp), List.append_nil]
    show Ledger (before ++ [work]) runs next
    refine ⟨by rw [queue, List.length_append]; exact room, fun atWork => ?_, fun out => ?_⟩
    · rw [worker] at atWork
      rw [ledger.working atWork, queue, List.append_assoc]
    · rw [worker] at out
      obtain ⟨stop, same⟩ := ledger.stopped out
      exact ⟨List.mem_append_left _ stop, by rw [takeWhile_append_of_stop stop, same]⟩
  | start languages idle queue worker =>
    rw [accepted_other (by simp), List.append_nil]
    show Ledger before (runs ++ [languages]) next
    refine ⟨?_, fun _ => ?_, fun out => by simp [worker] at out⟩
    · have bounded := ledger.bounded
      rw [queue, List.length_cons] at bounded
      omega
    · rw [ledger.working (.inl idle), queue]
      simp
  | finish busy queue worker =>
    rw [accepted_other (by simp), started_other (by simp), List.append_nil, List.append_nil]
    exact ⟨queue ▸ ledger.bounded, fun _ => by rw [queue]; exact ledger.working (.inr busy),
      fun out => by simp [worker] at out⟩
  | stop idle queue worker =>
    rw [accepted_other (by simp), started_other (by simp), List.append_nil, List.append_nil]
    have whole := ledger.working (.inl idle)
    refine ⟨?_, fun atWork => by simp [worker] at atWork, fun _ => ?_⟩
    · have bounded := ledger.bounded
      rw [queue, List.length_cons] at bounded
      omega
    · rw [whole, queue]
      exact ⟨by simp, (takeWhile_runs runs next.queue).symm⟩
  | leave leaving queue worker =>
    rw [accepted_other (by simp), started_other (by simp), List.append_nil, List.append_nil]
    exact ⟨by rw [queue]; exact Nat.zero_le _, fun atWork => by simp [worker] at atWork,
      fun _ => ledger.stopped (.inl leaving)⟩

/-- What each event of a kind keeps, any events of the kind keep. -/
theorem runEvents_keeps (allowed : Event → Prop) (holds : State → List Effect → Prop)
    (keeps : ∀ state before event, allowed event → holds state before →
      holds (step state event).1 (before ++ [(step state event).2]))
    (events : List Event) (all : ∀ event ∈ events, allowed event) (state : State)
    (before : List Effect) (initial : holds state before) :
    holds (runEvents state events).1 (before ++ (runEvents state events).2) := by
  induction events generalizing state before with
  | nil => simpa [runEvents] using initial
  | cons event rest ih =>
    have first := keeps state before event (all event List.mem_cons_self) initial
    have later := ih (fun other mem => all other (List.mem_cons_of_mem _ mem)) _ _ first
    rwa [List.append_assoc] at later

/-- The account is right after any events. -/
theorem ledger_runEvents (languages : List String) (events : List Event) :
    let final := runEvents { languages } events
    Ledger (accepted final.2) (started final.2) final.1 := by
  have kept := runEvents_keeps (fun _ => True)
    (fun state effects => Ledger (accepted effects) (started effects) state)
    (fun state before event _ ledger => by simpa using ledger.move (move_step state event))
    events (by simp) { languages } [] (.start languages)
  simpa using kept

/-! ## The worker that is gone -/

/-- A worker that is gone stays so, and nothing is accepted any more. -/
theorem Move.gone {state next : State} {effect : Effect} (move : Move state next effect)
    (gone : state.worker = .gone) : next.worker = .gone ∧ accepted [effect] = [] := by
  cases move with
  | keep queue worker notAccepted notStarted =>
    exact ⟨worker.trans gone, accepted_other notAccepted⟩
  | put work here => exact absurd gone here
  | start languages idle => simp [gone] at idle
  | finish busy => simp [gone] at busy
  | stop idle => simp [gone] at idle
  | leave leaving => simp [gone] at leaving

theorem gone_runEvents {state : State} (gone : state.worker = .gone) (events : List Event) :
    (runEvents state events).1.worker = .gone ∧ accepted (runEvents state events).2 = [] := by
  have kept := runEvents_keeps (fun _ => True)
    (fun state effects => state.worker = .gone ∧ accepted effects = [])
    (fun state before event _ ⟨gone, empty⟩ => by
      obtain ⟨stays, nothing⟩ := (move_step state event).gone gone
      exact ⟨stays, by rw [accepted_append, empty, nothing, List.append_nil]⟩)
    events (by simp) state [] ⟨gone, rfl⟩
  simpa using kept

/-- Whoever asks a worker that is gone is told so. -/
theorem submit_gone {state : State} (gone : state.worker = .gone) (work : Work) :
    step state (.submit work) = (state, .workerGone) := by
  simp [step, State.send, gone]

/-- A scheduler whose worker is gone ends with its next interval, wherever it is. -/
theorem tick_gone {state : State} (gone : state.worker = .gone) :
    (runEvents state tick).1.scheduler = .ended := by
  cases scheduler : state.scheduler <;> cases cancelled : state.isCancelled <;>
    simp [tick, runEvents, step, State.send, scheduler, cancelled, gone]

/-! ## The scheduler -/

/-- Whatever does not depend on the queue is not changed by sending. -/
theorem send_keeps (holds : State → Prop) {sender : State} {work : Work}
    {full gone : State × Effect} (sent : ∀ queue, holds { sender with queue })
    (ifFull : holds full.1) (ifGone : holds gone.1) :
    holds (sender.send work full gone).1 := by
  unfold State.send
  split
  · exact ifGone
  · split
    · exact sent _
    · exact ifFull

/-- A scheduler that has ended stays so. -/
theorem ended_step {state : State} (ended : state.scheduler = .ended) (event : Event) :
    (step state event).1.scheduler = .ended := by
  cases event with
  | look => simp [step, ended]
  | offer => simp [step, ended]
  | wake => simp [step, ended]
  | submit work => exact send_keeps (·.scheduler = .ended) (fun _ => ended) ended ended
  | take => simp only [step]; split <;> exact ended
  | finish outcome => simp only [step]; split <;> exact ended
  | leave => simp only [step]; split <;> exact ended
  | cancel => exact ended
  | close =>
    simp only [step]
    split
    · exact ended
    · exact ended
    · split <;> exact ended
    · exact send_keeps (·.scheduler = .ended) (fun _ => ended) ended ended
    · split <;> exact ended

/-- A scheduler that has ended sends nothing, whatever happens. -/
theorem ended_runEvents {state : State} (ended : state.scheduler = .ended) (events : List Event) :
    let later := (runEvents state events).1
    later.scheduler = .ended ∧ step later .offer = (later, .blocked) := by
  have kept := runEvents_keeps (fun _ => True) (fun state _ => state.scheduler = .ended)
    (fun state _ event _ ended => ended_step ended event) events (by simp) state [] ended
  exact ⟨kept, by simp [step, kept]⟩

/-- A run that was cancelled stays so. -/
theorem cancelled_step {state : State} (cancelled : state.isCancelled = true) (event : Event) :
    (step state event).1.isCancelled = true := by
  cases event with
  | look =>
    simp only [step]
    split
    · split <;> exact cancelled
    · split <;> exact cancelled
    · exact cancelled
    · exact cancelled
  | offer =>
    simp only [step]
    split
    · exact send_keeps (·.isCancelled = true) (fun _ => cancelled) cancelled cancelled
    · exact cancelled
  | wake => simp only [step]; split <;> exact cancelled
  | submit work => exact send_keeps (·.isCancelled = true) (fun _ => cancelled) cancelled cancelled
  | take => simp only [step]; split <;> exact cancelled
  | finish outcome => simp only [step]; split <;> exact cancelled
  | leave => simp only [step]; split <;> exact cancelled
  | cancel => rfl
  | close =>
    simp only [step]
    split
    · rfl
    · rfl
    · split <;> exact cancelled
    · exact send_keeps (·.isCancelled = true) (fun _ => cancelled) cancelled cancelled
    · split <;> exact cancelled

/-- A scheduler that looks after the run was cancelled ends. -/
theorem look_cancelled {state : State} (cancelled : state.isCancelled = true)
    (looks : state.scheduler ≠ .ready) : (step state .look).1.scheduler = .ended := by
  cases scheduler : state.scheduler with
  | awake => simp [step, scheduler, cancelled]
  | ready => exact absurd scheduler looks
  | asleep => simp [step, scheduler, cancelled]
  | ended => simp [step, scheduler]

/-- A scheduler that looked before the run was cancelled asks for one more run at most. -/
theorem offer_look_cancelled {state : State} (cancelled : state.isCancelled = true) :
    (runEvents state [.offer, .look]).1.scheduler = .ended := by
  have notReady : (step state .offer).1.scheduler ≠ .ready := by
    simp only [step]
    split
    · exact send_keeps (·.scheduler ≠ .ready) (fun _ => by simp) (by simp) (by simp)
    · next notReady => exact notReady
  exact look_cancelled (cancelled_step cancelled .offer) notReady

/-- A scheduler that finds the queue full drops its request, and only its own interval is changed
by it. -/
theorem offer_full {state : State} (ready : state.scheduler = .ready) (here : state.worker ≠ .gone)
    (full : capacity ≤ state.queue.length) :
    step state .offer = ({ state with scheduler := .asleep }, .dropped) := by
  simp [step, State.send, ready, here, Nat.not_lt.2 full]

/-! ## Shutting down -/

/-- Only the shutdown changes how far it has come. -/
theorem closing_step (state : State) {event : Event} (other : event ≠ .close) :
    (step state event).1.closing = state.closing := by
  cases event with
  | look => simp only [step]; split <;> (try split) <;> rfl
  | offer =>
    simp only [step]
    split
    · exact send_keeps (·.closing = state.closing) (fun _ => rfl) rfl rfl
    · rfl
  | wake => simp only [step]; split <;> rfl
  | submit work => exact send_keeps (·.closing = state.closing) (fun _ => rfl) rfl rfl
  | take => simp only [step]; split <;> rfl
  | finish outcome => simp only [step]; split <;> rfl
  | leave => simp only [step]; split <;> rfl
  | cancel => rfl
  | close => contradiction

/-- What is sent is accepted, unless it is something else that comes of it. -/
theorem accepted_send {sender : State} {work other : Work} {full gone : State × Effect}
    (mem : other ∈ accepted [(sender.send work full gone).2]) :
    other = work ∨ other ∈ accepted [full.2] ∨ other ∈ accepted [gone.2] := by
  unfold State.send at mem
  split at mem
  · exact .inr (.inr mem)
  · split at mem
    · exact .inl (List.mem_singleton.1 mem)
    · exact .inr (.inl mem)

/-- Only those who ask for it and the shutdown have a request to stop accepted. -/
theorem stop_not_accepted (state : State) {event : Event} (notAsked : event ≠ .submit .stop)
    (other : event ≠ .close) : .stop ∉ accepted [(step state event).2] := by
  intro mem
  cases event with
  | look => simp only [step] at mem; split at mem <;> (try split at mem) <;> simp [accepted] at mem
  | offer =>
    simp only [step] at mem
    split at mem
    · simpa [accepted] using accepted_send mem
    · simp [accepted] at mem
  | wake => simp only [step] at mem; split at mem <;> simp [accepted] at mem
  | submit work =>
    have same : Work.stop = work := by simpa [accepted] using accepted_send mem
    exact notAsked (by rw [same])
  | take => simp only [step] at mem; split at mem <;> simp [accepted] at mem
  | finish outcome => simp only [step] at mem; split at mem <;> simp [accepted] at mem
  | leave => simp only [step] at mem; split at mem <;> simp [accepted] at mem
  | cancel => simp [step, accepted] at mem
  | close => contradiction

/-- What the shutdown has done in a state, if nobody else asks the worker to stop. -/
structure Orderly (accepted : List Work) (state : State) : Prop where
  stopping : .stop ∈ accepted → state.scheduler = .ended
  joined : state.closing = .stopping ∨ state.closing = .waiting ∨ state.closing = .closed →
    state.scheduler = .ended
  asked : state.closing = .waiting ∨ state.closing = .closed → .stop ∈ accepted
  closed : state.closing = .closed → state.worker = .gone

theorem Orderly.start (languages : List String) : Orderly [] { languages } where
  stopping mem := by contradiction
  joined past := by simp at past
  asked past := by simp at past
  closed past := by contradiction

/-- A step of the shutdown keeps the order. -/
theorem Orderly.close {before : List Work} {runs : List (List String)} {state : State}
    (ledger : Ledger before runs state) (orderly : Orderly before state) :
    Orderly (before ++ accepted [(step state .close).2]) (step state .close).1 := by
  have blocked (same : step state .close = (state, .blocked)) :
      Orderly (before ++ accepted [(step state .close).2]) (step state .close).1 := by
    rw [same, accepted_other (by simp), List.append_nil]
    exact orderly
  cases closing : state.closing with
  | none | closed =>
    have same : step state .close =
        ({ state with isCancelled := true, closing := .joining }, .cancelled) := by
      simp [step, closing]
    rw [same, accepted_other (by simp), List.append_nil]
    exact ⟨orderly.stopping, by simp, by simp, by simp⟩
  | joining =>
    by_cases ended : state.scheduler = .ended
    · have same : step state .close = ({ state with closing := .stopping }, .noted) := by
        simp [step, closing, ended]
      rw [same, accepted_other (by simp), List.append_nil]
      exact ⟨fun _ => ended, fun _ => ended, by simp, by simp⟩
    · exact blocked (by simp [step, closing, ended])
  | stopping =>
    have ended := orderly.joined (.inl closing)
    by_cases gone : state.worker = .gone
    · have same : step state .close = ({ state with closing := .waiting }, .workerGone) := by
        simp [step, State.send, closing, gone]
      rw [same, accepted_other (by simp), List.append_nil]
      exact ⟨fun _ => ended, fun _ => ended, fun _ => (ledger.stopped (.inr gone)).1, by simp⟩
    · by_cases room : state.queue.length < capacity
      · have same : step state .close =
            ({ state with queue := state.queue ++ [.stop], closing := .waiting },
              .accepted .stop) := by
          simp [step, State.send, closing, gone, room]
        rw [same]
        exact ⟨fun _ => ended, fun _ => ended, fun _ => by simp [accepted], by simp⟩
      · exact blocked (by simp only [step, State.send, closing, gone, room, if_false])
  | waiting =>
    by_cases gone : state.worker = .gone
    · have same : step state .close = ({ state with closing := .closed }, .noted) := by
        simp [step, closing, gone]
      rw [same, accepted_other (by simp), List.append_nil]
      exact ⟨orderly.stopping, fun _ => orderly.joined (.inr (.inl closing)),
        fun _ => orderly.asked (.inl closing), fun _ => gone⟩
    · exact blocked (by simp [step, closing, gone])

/-- Each event keeps the order, unless somebody else asks the worker to stop. -/
theorem Orderly.step {before : List Work} {runs : List (List String)} {state : State}
    (ledger : Ledger before runs state) (orderly : Orderly before state) {event : Event}
    (notAsked : event ≠ .submit .stop) :
    Orderly (before ++ accepted [(step state event).2]) (step state event).1 := by
  by_cases close : event = .close
  · exact close ▸ .close ledger orderly
  · have unasked := stop_not_accepted state notAsked close
    have same := closing_step state close
    have stays (ended : state.scheduler = .ended) := ended_step ended event
    refine ⟨fun mem => ?_, fun past => ?_, fun past => ?_, fun past => ?_⟩
    · exact stays (orderly.stopping ((List.mem_append.1 mem).resolve_right unasked))
    · exact stays (orderly.joined (same ▸ past))
    · exact List.mem_append_left _ (orderly.asked (same ▸ past))
    · exact ((move_step state event).gone (orderly.closed (same ▸ past))).1

/-- Whoever shuts down keeps the order, whatever else happens. -/
theorem orderly_runEvents (languages : List String) {events : List Event}
    (notAsked : ∀ event ∈ events, event ≠ .submit .stop) :
    let final := runEvents { languages } events
    Orderly (accepted final.2) final.1 := by
  have kept := runEvents_keeps (· ≠ .submit .stop)
    (fun state effects => Ledger (accepted effects) (started effects) state ∧
      Orderly (accepted effects) state)
    (fun state before event notAsked ⟨ledger, orderly⟩ => by
      rw [accepted_append, started_append]
      exact ⟨ledger.move (move_step state event), .step ledger orderly notAsked⟩)
    events notAsked { languages } [] ⟨.start languages, .start languages⟩
  exact kept.2

/-! ## Runs that are carried out -/

variable {σ : Type}

/-- What is left of a world in which the runs that were started were carried out, one after the
other, and the run was cancelled in between. -/
def carriedOut (settings : Run.Settings) (handler : Program.Handler Service σ) :
    List Effect → σ → σ
  | [], world => world
  | .started languages :: rest, world =>
    carriedOut settings handler rest (((Run.once settings languages).run.run handler world).2)
  | .cancelled :: rest, world => carriedOut settings handler rest (handler (.inr .cancel) world).2
  | _ :: rest, world => carriedOut settings handler rest world

theorem carriedOut_cons (settings : Run.Settings) (handler : Program.Handler Service σ)
    (effect : Effect) (rest : List Effect) (world : σ) :
    carriedOut settings handler (effect :: rest) world =
      carriedOut settings handler rest (carriedOut settings handler [effect] world) := by
  cases effect <;> rfl

/-- The end of the run that an effect starts, if it starts one. -/
def ends (settings : Run.Settings) (handler : Program.Handler Service σ) :
    Effect → σ → List Event
  | .started languages, world => [.finish ((Run.once settings languages).run.run handler world).1]
  | _, _ => []

/-- Events with the end of each run put right after its start, by what came of them. -/
def withEnds (settings : Run.Settings) (handler : Program.Handler Service σ) :
    List Event → List Effect → σ → List Event
  | event :: events, effect :: effects, world =>
    (event :: ends settings handler effect world) ++
      withEnds settings handler events effects (carriedOut settings handler [effect] world)
  | _, _, _ => []

/-- Effects with a note of the end of each run right after its start. -/
def withNotes (effects : List Effect) : List Effect :=
  effects.flatMap fun
    | .started languages => [.started languages, .noted]
    | effect => [effect]

theorem withNotes_cons (effect : Effect) (rest : List Effect) :
    withNotes (effect :: rest) = withNotes [effect] ++ withNotes rest :=
  @List.flatMap_append _ _ [effect] rest _

/-- Nothing is found in a note. -/
theorem filterMap_withNotes {α : Type} {find : Effect → Option α} (nothing : find .noted = none)
    (effects : List Effect) : (withNotes effects).filterMap find = effects.filterMap find := by
  induction effects with
  | nil => rfl
  | cons effect rest ih =>
    have single : (withNotes [effect]).filterMap find = [effect].filterMap find := by
      cases effect <;> simp [withNotes, List.filterMap_cons, nothing]
    rw [withNotes_cons, List.filterMap_append, ih, single]
    exact List.filterMap_append.symm

theorem runEvents_append (state : State) (first second : List Event) :
    runEvents state (first ++ second) =
      ((runEvents (runEvents state first).1 second).1,
        (runEvents state first).2 ++ (runEvents (runEvents state first).1 second).2) := by
  induction first generalizing state with
  | nil => rfl
  | cons event rest ih =>
    show ((runEvents (step state event).1 (rest ++ second)).1,
      (step state event).2 :: (runEvents (step state event).1 (rest ++ second)).2) = _
    rw [ih]
    rfl

/-- An event that is carried out does to the queue what it does, followed by the end of the run that
it starts, whatever the run comes to. -/
theorem run_perform (settings : Run.Settings) (handler : Program.Handler Service σ) (state : State)
    (event : Event) (world : σ) :
    ∃ next effect, (perform settings state event).run handler world =
        ((next, effect), carriedOut settings handler [effect] world) ∧
      runEvents state (event :: ends settings handler effect world) =
        (next, withNotes [effect]) := by
  have move := move_step state event
  rcases happened : step state event with ⟨next, effect⟩
  rw [happened] at move
  have single : runEvents state [event] = (next, [effect]) := by
    simp only [runEvents, happened]
  by_cases starts : ∃ languages, effect = .started languages
  · obtain ⟨languages, rfl⟩ := starts
    let outcome := ((Run.once settings languages).run.run handler world).1
    refine ⟨(step next (.finish outcome)).1, .started languages, ?_, ?_⟩
    · simp only [perform, happened]
      exact Program.run_bind ..
    · have busy : next.worker = .busy := by
        cases move with
        | keep _ _ _ notStarted => exact absurd rfl (notStarted languages)
        | start _ _ _ worker => exact worker
      have noted : (step next (.finish outcome)).2 = .noted := by simp only [step, busy, if_true]
      show runEvents state ([event] ++ [.finish outcome]) = _
      rw [runEvents_append, single]
      exact congrArg (fun effect => (_, [Effect.started languages, effect])) noted
  · refine ⟨next, effect, ?_, ?_⟩
    · simp only [perform, happened]
      cases effect <;> first | rfl | exact absurd ⟨_, rfl⟩ starts
    · cases effect <;> first | exact single | exact absurd ⟨_, rfl⟩ starts

/-- Events that are carried out do to the queue what they do, and nothing was done to the world but
what their effects say. -/
theorem run_performAll (settings : Run.Settings) (handler : Program.Handler Service σ)
    (state : State) (events : List Event) (world : σ) :
    ∃ last effects, (performAll settings state events).run handler world =
        ((last, effects), carriedOut settings handler effects world) ∧
      effects.length = events.length ∧
      runEvents state (withEnds settings handler events effects world) =
        (last, withNotes effects) := by
  induction events generalizing state world with
  | nil => exact ⟨state, [], rfl, rfl, rfl⟩
  | cons event rest ih =>
    obtain ⟨next, effect, first, happened⟩ := run_perform settings handler state event world
    obtain ⟨last, effects, later, long, happens⟩ :=
      ih next (carriedOut settings handler [effect] world)
    refine ⟨last, effect :: effects, ?_, congrArg Nat.succ long, ?_⟩
    · show Program.run handler (Program.bind _ _) world = _
      rw [Program.run_bind, first]
      show Program.run handler (Program.bind _ _) _ = _
      rw [Program.run_bind, later, carriedOut_cons settings handler effect effects]
      rfl
    · show runEvents state ((event :: ends settings handler effect world) ++ _) = _
      rw [runEvents_append, happened, happens]
      exact congrArg (last, ·) (withNotes_cons effect effects).symm

/-! ## All together -/

/-- Whatever the scheduler, the worker, those who ask for runs and those who shut down do, in
whatever order: what is started is what was accepted before the request to stop, each request once
and in order, and the queue never holds more than one. A scheduler that finds the queue full drops
its own request and changes nothing else. A run may come to anything, the worker goes on with the
next request. A scheduler that looks after the run was cancelled ends, one that had looked before
asks once more at most, and one that has ended sends nothing. When the worker is gone, nothing is
accepted, everybody who asks is told so, and the scheduler ends with its next interval. If nobody
else asks the worker to stop, it is asked after the scheduler has ended, and whoever shuts down
waits for both, as often as that is done.

When the events are carried out, each run that is started is done at once, and its end is one more
event, right after its start. What then becomes of the queue and the requests is what becomes of
them in these events, and what is done to the world is what the account says. -/
theorem requests_served (languages : List String) (events : List Event) :
    let final := runEvents { languages } events
    let state := final.1
    Ledger (accepted final.2) (started final.2) state ∧
    (state.scheduler = .ready → state.worker ≠ .gone → capacity ≤ state.queue.length →
      step state .offer = ({ state with scheduler := .asleep }, .dropped)) ∧
    (∀ outcome, state.worker = .busy →
      step state (.finish outcome) = ({ state with worker := .idle }, .noted)) ∧
    (∀ runs rest, state.worker = .idle → state.queue = .run runs :: rest →
      step state .take = ({ state with queue := rest, worker := .busy }, .started runs)) ∧
    (state.isCancelled = true →
      (state.scheduler ≠ .ready → (step state .look).1.scheduler = .ended) ∧
      (runEvents state [.offer, .look]).1.scheduler = .ended) ∧
    (state.scheduler = .ended → ∀ later, let last := (runEvents state later).1
      last.scheduler = .ended ∧ step last .offer = (last, .blocked)) ∧
    (state.worker = .gone → ∀ later, let last := runEvents state later
      last.1.worker = .gone ∧ accepted last.2 = [] ∧
      (∀ work, step last.1 (.submit work) = (last.1, .workerGone)) ∧
      (runEvents last.1 tick).1.scheduler = .ended) ∧
    ((∀ event ∈ events, event ≠ .submit .stop) → Orderly (accepted final.2) state) ∧
    ∀ {σ : Type} (settings : Run.Settings) (handler : Program.Handler Service σ) (world : σ),
      ∃ last effects, (performAll settings { languages } events).run handler world =
          ((last, effects), carriedOut settings handler effects world) ∧
        effects.length = events.length ∧
        runEvents { languages } (withEnds settings handler events effects world) =
          (last, withNotes effects) ∧
        Ledger (accepted effects) (started effects) last := by
  refine ⟨ledger_runEvents languages events, offer_full, fun outcome busy => by simp [step, busy],
    fun runs rest idle queue => by simp [step, idle, queue],
    fun cancelled => ⟨look_cancelled cancelled, offer_look_cancelled cancelled⟩,
    fun ended later => ended_runEvents ended later, fun gone later => ?_,
    orderly_runEvents languages, fun settings handler world => ?_⟩
  · obtain ⟨stays, nothing⟩ := gone_runEvents gone later
    exact ⟨stays, nothing, submit_gone stays, tick_gone stays⟩
  · obtain ⟨last, effects, done, long, happened⟩ :=
      run_performAll settings handler { languages } events world
    have ledger := ledger_runEvents languages (withEnds settings handler events effects world)
    rw [happened] at ledger
    have notes : accepted (withNotes effects) = accepted effects ∧
        started (withNotes effects) = started effects :=
      ⟨filterMap_withNotes rfl effects, filterMap_withNotes rfl effects⟩
    exact ⟨last, effects, done, long, happened, notes.1 ▸ notes.2 ▸ ledger⟩

/-- How a machine serves runs on a working copy whose version-control program answers nothing. -/
def serveNothing : Program.Handler Service Machine
  | .inl request, machine =>
    (GitRepository.meaning ⟨Path.ofText "/r/", "origin", "main", true⟩ ⟨Path.ofText "c"⟩
      request).run Machine.handle machine
  | .inr request, machine => Machine.handle request machine

/-- The scheduler's run fails, somebody's run waits behind it, and the shutdown waits for room. What
is asked for while the worker leaves is lost with the queue, and a second shutdown finds nobody.
Carried out, two runs fail, one after the other, before the worker stops. -/
theorem requests_served_closing :
    let start : State := { languages := ["ja"] }
    let full := (runEvents start [.submit (.run ["ko"]), .look]).1
    let waits := (runEvents start [.submit (.run ["ko"])]).1
    let busy := (runEvents start [.look, .offer, .take]).1
    let final := runEvents start [.look, .offer, .take, .submit (.run ["ko"]), .close, .look,
      .close, .close, .finish (.error .workerGone), .take, .close, .finish (.ok ⟨0, 0, []⟩), .take,
      .submit (.run ["zh"]), .leave, .close, .close, .close, .close, .close]
    let settings : Run.Settings := ⟨.standard, ⟨Path.ofText "c"⟩, 0⟩
    let machine : Machine := { files := .empty, directory := [] }
    let events := [.look, .offer, .take, .submit (.run ["ko"]), .take, .close, .look, .close,
      .close, .take, .leave, .close]
    let ran := (performAll settings start events).run serveNothing machine
    (step full .offer).2 = .dropped ∧
    (step busy (.finish (.error .workerGone))).1.worker = .idle ∧
    (step waits .take).2 = .started ["ko"] ∧
    accepted final.2 = [.run ["ja"], .run ["ko"], .stop, .run ["zh"]] ∧
    (started final.2).map .run = (accepted final.2).takeWhile (· ≠ .stop) ∧
    (step final.1 .look).1.scheduler = .ended ∧
    step final.1 .offer = (final.1, .blocked) ∧
    step final.1 (.submit (.run ["zh"])) = (final.1, .workerGone) ∧
    final.1.closing = .closed ∧ Orderly (accepted final.2) final.1 ∧
    started ran.1.2 = [["ja"], ["ko"]] ∧ ran.2.runs.length = 2 ∧
    ran.2 = carriedOut settings serveNothing ran.1.2 machine ∧
    runEvents start (withEnds settings serveNothing events ran.1.2 machine) =
      (ran.1.1, withNotes ran.1.2) ∧
    (started ran.1.2).map .run = (accepted ran.1.2).takeWhile (· ≠ .stop) := by
  intro start full waits busy final settings machine events ran
  have dropped := (requests_served ["ja"] [.submit (.run ["ko"]), .look]).2.1
    (by decide) (by decide) (by decide)
  have failed := (requests_served ["ja"] [.look, .offer, .take]).2.2.1 (.error .workerGone)
    (by decide)
  have taken := (requests_served ["ja"] [.submit (.run ["ko"])]).2.2.2.1 ["ko"] [] (by decide)
    (by decide)
  obtain ⟨ledger, -, -, -, looks, sends, gone, orderly, -⟩ := requests_served ["ja"]
    [.look, .offer, .take, .submit (.run ["ko"]), .close, .look, .close, .close,
      .finish (.error .workerGone), .take, .close, .finish (.ok ⟨0, 0, []⟩), .take,
      .submit (.run ["zh"]), .leave, .close, .close, .close, .close, .close]
  obtain ⟨-, -, -, -, -, -, -, -, performed⟩ := requests_served ["ja"] events
  obtain ⟨last, effects, done, -, happened, account⟩ := performed settings serveNothing machine
  have seen : ran.1.1.worker = .gone ∧ started ran.1.2 = [["ja"], ["ko"]] ∧
      ran.2.runs.length = 2 := by decide +kernel
  have same : ran = ((last, effects), carriedOut settings serveNothing effects machine) := done
  rw [same] at seen ⊢
  exact ⟨congrArg Prod.snd dropped, congrArg (·.1.worker) failed, congrArg Prod.snd taken,
    by decide, (ledger.stopped (.inr (by decide))).2, (looks (by decide)).1 (by decide),
    (sends (by decide) []).2, (gone (by decide) []).2.2.1 _, by decide, orderly (by simp),
    seen.2.1, seen.2.2, rfl, happened, (account.stopped (.inr seen.1)).2⟩

end Watch

end LocaleWatch
