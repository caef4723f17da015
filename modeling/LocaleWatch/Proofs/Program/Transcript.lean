import LocaleWatch.Program

/-!
# What a run asks and is told

The events of a run are its requests with their answers, in order. A transcript of a program is
any list of events that the program can be led through, whoever answers; the events of a run are
one. So what holds of all transcripts of a program holds of its runs among any surroundings, and
it is found out from the parts of the program: a transcript of a sequence is one of its first part
followed by one of its second.

## Main results

* `Program.transcript_trace` — the events of a run are a transcript.
* `Program.run_logged` — a handler can write the events down.
* `Attempt.ends_bind` — transcripts of sequences.
* `Attempt.Ends.rounds` — transcripts of loops.
* `Attempt.Asks.ends` — what holds of every request that an attempt can come to.
-/

namespace LocaleWatch

/-- A request that was asked, and what was told. -/
structure Event (I : Interface) where
  request : I.Request
  answer : I.Answer request

namespace Program

variable {I : Interface} {α β σ : Type}

/-- What a program asks and is told when it is run. -/
def trace (handler : Handler I σ) : Program I α → σ → List (Event I)
  | .done _, _ => []
  | .ask request next, state =>
    ⟨request, (handler request state).1⟩ ::
      trace handler (next (handler request state).1) (handler request state).2

/-- The events of a sequence are those of its parts. -/
theorem trace_bind (handler : Handler I σ) (program : Program I α) (next : α → Program I β)
    (state : σ) :
    trace handler (program.bind next) state =
      trace handler program state ++
        trace handler (next (program.run handler state).1) (program.run handler state).2 := by
  induction program generalizing state with
  | done value => rfl
  | ask request rest ih => exact congrArg (_ :: ·) (ih _ _)

/-- A program can be led through some events, and ends with a value then. -/
inductive Transcript : Program I α → List (Event I) → α → Prop where
  | done (value : α) : Transcript (.done value) [] value
  | ask {request : I.Request} {next : I.Answer request → Program I α} {answer : I.Answer request}
    {events : List (Event I)} {value : α} (rest : Transcript (next answer) events value) :
    Transcript (.ask request next) (⟨request, answer⟩ :: events) value

/-- The events of a run are a transcript. -/
theorem transcript_trace (handler : Handler I σ) (program : Program I α) (state : σ) :
    Transcript program (program.trace handler state) (program.run handler state).1 := by
  induction program generalizing state with
  | done value => exact .done value
  | ask request next ih => exact .ask (ih _ _)

/-- Whoever is led through a program that asks is told something and led through the rest. -/
theorem transcript_ask {request : I.Request} {next : I.Answer request → Program I α}
    {events : List (Event I)} {value : α} :
    Transcript (.ask request next) events value ↔
      ∃ answer rest, events = ⟨request, answer⟩ :: rest ∧ Transcript (next answer) rest value := by
  constructor
  · rintro (_ | through)
    exact ⟨_, _, rfl, through⟩
  · rintro ⟨answer, rest, rfl, through⟩
    exact .ask through

/-- A sequence is led through the events of its parts. -/
theorem transcript_bind {program : Program I α} {next : α → Program I β}
    {events : List (Event I)} {last : β} :
    Transcript (program.bind next) events last ↔
      ∃ value before after, events = before ++ after ∧ Transcript program before value ∧
        Transcript (next value) after last := by
  induction program generalizing events with
  | done value =>
    constructor
    · intro through
      exact ⟨value, [], events, rfl, .done value, through⟩
    · rintro ⟨_, _, after, rfl, ⟨⟩, through⟩
      exact through
  | ask request rest ih =>
    constructor
    · rintro (_ | through)
      obtain ⟨value, before, after, rfl, first, second⟩ := (ih _).1 through
      exact ⟨value, _ :: before, after, rfl, .ask first, second⟩
    · rintro ⟨value, _, after, rfl, ⟨_⟩ | first, second⟩
      exact .ask ((ih _).2 ⟨value, _, after, rfl, first, second⟩)

/-! ### Written down -/

/-- A handler that writes down what it is asked and what it tells. -/
def logged (handler : Handler I σ) : Handler I (σ × List (Event I)) :=
  fun request state =>
    ((handler request state.1).1,
      (handler request state.1).2, state.2 ++ [⟨request, (handler request state.1).1⟩])

/-- What is written down in a run are its events. -/
theorem run_logged (handler : Handler I σ) (program : Program I α) (state : σ)
    (events : List (Event I)) :
    program.run (logged handler) (state, events) =
      ((program.run handler state).1, (program.run handler state).2,
        events ++ program.trace handler state) := by
  induction program generalizing state events with
  | done value => simp [trace]
  | ask request rest ih =>
    refine (ih _ _ _).trans ?_
    simp [trace]

/-- Writing down changes nothing where a run is stopped. -/
theorem runFor_logged (handler : Handler I σ) (program : Program I α) (count : Nat) (state : σ)
    (events : List (Event I)) :
    (program.runFor (logged handler) count (state, events)).2.1 =
      (program.runFor handler count state).2 := by
  induction program generalizing count state events with
  | done value => cases count <;> rfl
  | ask request rest ih =>
    cases count with
    | zero => rfl
    | succ count => exact ih _ _ _ _

/-- To change the value at the end changes nothing where a run is stopped. -/
theorem runFor_bind_done (handler : Handler I σ)
    (program : Program I α) (change : α → β) (count : Nat) (state : σ) :
    ((program.bind fun value => .done (change value)).runFor handler count state).2 =
      (program.runFor handler count state).2 := by
  induction program generalizing count state with
  | done value => cases count <;> rfl
  | ask request rest ih =>
    cases count with
    | zero => rfl
    | succ count => exact ih _ _ _

/-! ### Kinds of requests -/

/-- Whatever is told, the program asks requests of a kind only. -/
def Asks (kind : I.Request → Prop) : Program I α → Prop
  | .done _ => True
  | .ask request next => kind request ∧ ∀ answer, Asks kind (next answer)

theorem Asks.bind {kind : I.Request → Prop} {program : Program I α} {next : α → Program I β}
    (first : Asks kind program) (second : ∀ value, Asks kind (next value)) :
    Asks kind (program.bind next) := by
  induction program with
  | done value => exact second value
  | ask request rest ih => exact ⟨first.1, fun answer => ih answer (first.2 answer)⟩

theorem Asks.mono {allowed allowed' : I.Request → Prop} {program : Program I α}
    (asks : Asks allowed program) (weaker : ∀ request, allowed request → allowed' request) :
    Asks allowed' program := by
  induction program with
  | done value => trivial
  | ask request rest ih => exact ⟨weaker request asks.1, fun answer => ih answer (asks.2 answer)⟩

theorem Asks.transcript {kind : I.Request → Prop} {program : Program I α}
    (asks : Asks kind program) {events : List (Event I)} {value : α}
    (through : Transcript program events value) : ∀ event ∈ events, kind event.request := by
  induction through with
  | done value => exact nofun
  | ask rest ih =>
    intro event mem
    rcases List.mem_cons.1 mem with rfl | mem
    · exact asks.1
    · exact ih (asks.2 _) event mem

end Program

namespace Attempt

variable {I : Interface} {ε δ α β : Type}

/-- An attempt can be led through some events, and ends with a value or an error then. -/
abbrev Ends (attempt : Attempt I ε α) (events : List (Event I)) (result : Except ε α) : Prop :=
  Program.Transcript attempt.run events result

variable {events : List (Event I)}

theorem ends_pure {value : α} {result : Except ε α} :
    Ends (Pure.pure value : Attempt I ε α) events result ↔ events = [] ∧ result = .ok value := by
  constructor
  · rintro ⟨⟩
    exact ⟨rfl, rfl⟩
  · rintro ⟨rfl, rfl⟩
    exact .done _

theorem ends_throw {error : ε} {result : Except ε α} :
    Ends (MonadExcept.throw error : Attempt I ε α) events result ↔
      events = [] ∧ result = .error error := by
  constructor
  · rintro ⟨⟩
    exact ⟨rfl, rfl⟩
  · rintro ⟨rfl, rfl⟩
    exact .done _

section

variable {attempt : Attempt I ε α} {next : α → Attempt I ε β}

/-- A sequence fails in its first part, or is led through the events of both. -/
theorem ends_bind {result : Except ε β} :
    Ends (attempt >>= next) events result ↔
      (∃ error, Ends attempt events (.error error) ∧ result = .error error) ∨
        ∃ first before after, events = before ++ after ∧ Ends attempt before (.ok first) ∧
          Ends (next first) after result := by
  refine Program.transcript_bind.trans ⟨?_, ?_⟩
  · rintro ⟨error | first, before, after, rfl, ended, ends⟩
    · cases ends
      rw [List.append_nil]
      exact .inl ⟨error, ended, rfl⟩
    · exact .inr ⟨first, before, after, rfl, ended, ends⟩
  · rintro (⟨error, ended, rfl⟩ | ⟨first, before, after, rfl, ended, ends⟩)
    · exact ⟨.error error, events, [], (List.append_nil _).symm, ended, .done _⟩
    · exact ⟨.ok first, before, after, rfl, ended, ends⟩

/-- A sequence that gives a value is led through the events of both parts. -/
theorem ends_bind_ok {value : β} :
    Ends (attempt >>= next) events (.ok value) ↔
      ∃ first before after, events = before ++ after ∧ Ends attempt before (.ok first) ∧
        Ends (next first) after (.ok value) := by
  rw [ends_bind]
  constructor
  · rintro (⟨error, -, ⟨⟩⟩ | parts)
    exact parts
  · exact .inr

end

/-- To go on with whatever comes of an attempt is to go on with what it ends with. -/
theorem run_result_bind {attempt : Attempt I ε α} {next : Except ε α → Attempt I δ β} :
    (Attempt.result attempt >>= next).run = attempt.run.bind fun told => (next told).run :=
  Program.bind_assoc _ _ _

/-- To say an error in other words is to change what the attempt ends with. -/
theorem run_mapError {attempt : Attempt I ε α} {change : ε → δ} :
    (attempt.mapError change).run = attempt.run.bind fun told => .done (told.mapError change) := by
  refine congrArg (Program.bind attempt.run) (funext fun told => ?_)
  cases told <;> rfl

/-- A sequence whose first part fails goes no further. -/
theorem run_bind_error {σ : Type} {handler : Program.Handler I σ} {attempt : Attempt I ε α}
    {next : α → Attempt I ε β} {state : σ} {error : ε}
    (failed : (attempt.run.run handler state).1 = .error error) :
    ((attempt >>= next).run.run handler state).1 = .error error ∧
      (attempt >>= next).run.trace handler state = attempt.run.trace handler state := by
  have stops : ExceptT.bindCont next (attempt.run.run handler state).1 =
      .done (.error error) := by
    rw [failed]
    rfl
  constructor
  · refine (congrArg Prod.fst (Program.run_bind handler attempt.run _ state)).trans ?_
    rw [stops]
    rfl
  · refine (Program.trace_bind handler attempt.run _ state).trans ?_
    rw [stops]
    exact List.append_nil _

/-- Other words for an error change no event. -/
theorem ends_mapError {attempt : Attempt I ε α} {change : ε → δ} {result : Except δ α} :
    Ends (attempt.mapError change) events result ↔
      ∃ told, Ends attempt events told ∧ result = told.mapError change := by
  refine Program.transcript_bind.trans ⟨?_, ?_⟩
  · rintro ⟨error | value, before, after, rfl, ended, ends⟩
    · cases ends
      exact ⟨.error error, by rwa [List.append_nil], rfl⟩
    · cases ends
      exact ⟨.ok value, by rwa [List.append_nil], rfl⟩
  · rintro ⟨error | value, ended, rfl⟩
    · exact ⟨_, events, [], (List.append_nil _).symm, ended, .done _⟩
    · exact ⟨_, events, [], (List.append_nil _).symm, ended, .done _⟩

theorem ends_mapError_ok {attempt : Attempt I ε α} {change : ε → δ} {value : α} :
    Ends (attempt.mapError change) events (.ok value) ↔ Ends attempt events (.ok value) := by
  refine ends_mapError.trans ⟨?_, fun ended => ⟨_, ended, rfl⟩⟩
  rintro ⟨error | other, ended, same⟩
  · cases same
  · cases same
    exact ended

/-! ## Parts of transcripts -/

/-- Somewhere among some events the attempt was led to a value. -/
def Ran (attempt : Attempt I ε α) (events : List (Event I)) (value : α) : Prop :=
  ∃ part, part <:+: events ∧ Ends attempt part (.ok value)

theorem Ran.mono {attempt : Attempt I ε α} {value : α} {more : List (Event I)}
    (ran : Ran attempt events value) (among : events <:+: more) : Ran attempt more value := by
  obtain ⟨part, isPart, ends⟩ := ran
  exact ⟨part, isPart.trans among, ends⟩

/-! ## Loops -/

section

variable {f : α → Attempt I ε β}

theorem ends_mapM_nil {values : List β} :
    Ends (([] : List α).mapM f) events (.ok values) ↔ events = [] ∧ values = [] := by
  rw [List.mapM_nil, ends_pure]
  exact and_congr_right fun _ => ⟨fun same => Except.ok.inj same, fun same => congrArg _ same⟩

/-- A loop is led through the events of its first round and then of the others. -/
theorem ends_mapM_cons {item : α} {more : List α} {values : List β} :
    Ends ((item :: more).mapM f) events (.ok values) ↔
      ∃ value rest before after, values = value :: rest ∧ events = before ++ after ∧
        Ends (f item) before (.ok value) ∧ Ends (more.mapM f) after (.ok rest) := by
  rw [List.mapM_cons, ends_bind_ok]
  constructor
  · rintro ⟨value, before, tail, rfl, first, through⟩
    obtain ⟨rest, after, last, rfl, others, ended⟩ := ends_bind_ok.1 through
    obtain ⟨rfl, same⟩ := ends_pure.1 ended
    cases same
    exact ⟨value, rest, before, after, rfl, by rw [List.append_nil], first, others⟩
  · rintro ⟨value, rest, before, after, rfl, rfl, first, others⟩
    refine ⟨value, before, after, rfl, first, ends_bind_ok.2 ?_⟩
    exact ⟨rest, after, [], (List.append_nil after).symm, others, ends_pure.2 ⟨rfl, rfl⟩⟩

/-- Each item of a loop has its round, and each value and each event is of a round. -/
theorem Ends.rounds {items : List α} {values : List β}
    (ends : Ends (items.mapM f) events (.ok values)) :
    (∀ item ∈ items, ∃ value ∈ values, Ran (f item) events value) ∧
      (∀ value ∈ values, ∃ item ∈ items, Ran (f item) events value) ∧
      ∀ event ∈ events, ∃ item ∈ items, ∃ value ∈ values, ∃ part, event ∈ part ∧
        Ends (f item) part (.ok value) := by
  induction items generalizing events values with
  | nil =>
    obtain ⟨rfl, rfl⟩ := ends_mapM_nil.1 ends
    exact ⟨nofun, nofun, nofun⟩
  | cons item more ih =>
    obtain ⟨value, rest, before, after, rfl, rfl, first, others⟩ := ends_mapM_cons.1 ends
    obtain ⟨items, values, rounds⟩ := ih others
    have here : before <:+: before ++ after := List.infix_append_of_infix_left (List.infix_refl _)
    have later : after <:+: before ++ after := List.infix_append_of_infix_right (List.infix_refl _)
    refine ⟨fun other mem => ?_, fun other mem => ?_, fun event mem => ?_⟩
    · rcases List.mem_cons.1 mem with rfl | mem
      · exact ⟨value, List.mem_cons_self, before, here, first⟩
      · obtain ⟨found, isIn, ran⟩ := items other mem
        exact ⟨found, List.mem_cons_of_mem _ isIn, ran.mono later⟩
    · rcases List.mem_cons.1 mem with rfl | mem
      · exact ⟨item, List.mem_cons_self, before, here, first⟩
      · obtain ⟨source, isIn, ran⟩ := values other mem
        exact ⟨source, List.mem_cons_of_mem _ isIn, ran.mono later⟩
    · rcases List.mem_append.1 mem with mem | mem
      · exact ⟨item, List.mem_cons_self, value, List.mem_cons_self, before, mem, first⟩
      · obtain ⟨source, isIn, found, isValue, part, isEvent, round⟩ := rounds event mem
        exact ⟨source, List.mem_cons_of_mem _ isIn, found, List.mem_cons_of_mem _ isValue, part,
          isEvent, round⟩

/-- What is collected from the events of a loop is what is collected from its rounds. -/
theorem Ends.flatMap_mapM {γ : Type} {collect : Event I → List γ} {found : β → List γ}
    {items : List α} {values : List β}
    (each : ∀ item part value, Ends (f item) part (.ok value) → part.flatMap collect = found value)
    (ends : Ends (items.mapM f) events (.ok values)) :
    events.flatMap collect = values.flatMap found := by
  induction items generalizing events values with
  | nil =>
    obtain ⟨rfl, rfl⟩ := ends_mapM_nil.1 ends
    rfl
  | cons item more ih =>
    obtain ⟨value, rest, before, after, rfl, rfl, first, others⟩ := ends_mapM_cons.1 ends
    rw [List.flatMap_append, List.flatMap_cons, each item before value first, ih others]

end

/-! ## Requests that an attempt can come to -/

/-- Whatever is told, the attempt asks requests of a kind only. -/
def Asks (kind : I.Request → Prop) (attempt : Attempt I ε α) : Prop :=
  Program.Asks kind attempt.run

namespace Asks

variable {kind : I.Request → Prop}

theorem pure (value : α) : Asks kind (Pure.pure value : Attempt I ε α) := trivial

theorem throw (error : ε) : Asks kind (MonadExcept.throw error : Attempt I ε α) := trivial

theorem bind {attempt : Attempt I ε α} {next : α → Attempt I ε β} (first : Asks kind attempt)
    (second : ∀ value, Asks kind (next value)) : Asks kind (attempt >>= next) := by
  refine Program.Asks.bind first ?_
  rintro (error | value)
  · exact trivial
  · exact second value

theorem mapError {attempt : Attempt I ε α} {change : ε → δ} (asks : Asks kind attempt) :
    Asks kind (attempt.mapError change) := by
  refine Program.Asks.bind asks ?_
  rintro (error | value)
  · exact trivial
  · exact trivial

theorem mapM {f : α → Attempt I ε β} {items : List α}
    (asks : ∀ item ∈ items, Asks kind (f item)) : Asks kind (items.mapM f) := by
  induction items with
  | nil => exact pure []
  | cons item more ih =>
    rw [List.mapM_cons]
    refine bind (asks item List.mem_cons_self) fun value => ?_
    exact bind (ih fun other mem => asks other (List.mem_cons_of_mem _ mem)) fun rest => pure _

theorem forM {f : α → Attempt I ε PUnit} {items : List α}
    (asks : ∀ item ∈ items, Asks kind (f item)) : Asks kind (items.forM f) := by
  induction items with
  | nil => exact pure ()
  | cons item more ih =>
    refine bind (asks item List.mem_cons_self) fun _ => ?_
    exact ih fun other mem => asks other (List.mem_cons_of_mem _ mem)

/-- Of the events of an attempt every request is of the kind. -/
theorem ends {attempt : Attempt I ε α} (asks : Asks kind attempt) {events : List (Event I)}
    {result : Except ε α} (ends : Ends attempt events result) :
    ∀ event ∈ events, kind event.request :=
  Program.Asks.transcript asks ends

end Asks

end Attempt

end LocaleWatch
