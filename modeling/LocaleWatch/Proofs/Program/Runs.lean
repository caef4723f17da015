import LocaleWatch.Proofs.Program.Transcript

/-!
# How a run goes

A transcript forgets the states that a run passes through, and a triple forgets where the run went
that led to them. To say that one part of a run started where another one ended, the run is taken
apart here: a sequence ends where its first part fails, or where its second part ends that started
where the first one ended; a loop ends where one of its rounds fails, or where the last one ends.

A program over two interfaces whose requests of the first are answered by programs over the second
is run by a handler that carries such an answer out as one step.

## Main results

* `Program.led_trace` — the events of a run lead to its last state.
* `Program.run_resolveFirst` — who answers the first interface by programs answers both.
* `Attempt.runs_bind` — how sequences go.
* `Attempt.runs_mapM` — how loops go.
-/

namespace LocaleWatch

/-! ## Rounds after rounds -/

/-- Rounds that start where the one before ended, one for each item, each with a value. -/
inductive Chain {α β σ : Type} (round : α → σ → β → σ → Prop) :
    List α → σ → List β → σ → Prop where
  | nil (state : σ) : Chain round [] state [] state
  | cons {item : α} {more : List α} {value : β} {values : List β} {start between last : σ}
    (first : round item start value between) (rest : Chain round more between values last) :
    Chain round (item :: more) start (value :: values) last

namespace Chain

variable {α β σ : Type} {round : α → σ → β → σ → Prop} {items : List α} {values : List β}
  {start last : σ}

/-- Each value is of a round. -/
theorem exists_round (chain : Chain round items start values last) {value : β}
    (mem : value ∈ values) : ∃ item start last, round item start value last := by
  induction chain with
  | nil => contradiction
  | cons first rest ih =>
    rcases List.mem_cons.1 mem with rfl | mem
    · exact ⟨_, _, _, first⟩
    · exact ih mem

end Chain

/-! ## Two interfaces -/

namespace Program

variable {I J : Interface} {α σ : Type}

/-- Who answers the requests of two interfaces. -/
def Handler.sum (first : Handler I σ) (second : Handler J σ) : Handler (I.sum J) σ
  | .inl request => first request
  | .inr request => second request

/-- Who answers the first interface by programs over the second answers both. -/
theorem run_resolveFirst {meaning : (r : I.Request) → Program J (I.Answer r)}
    {handler : Handler J σ} {program : Program (I.sum J) α} {state : σ} :
    (program.resolveFirst meaning).run handler state =
      program.run (Handler.sum (fun r => (meaning r).run handler) handler) state := by
  refine (run_interpret _ handler program state).trans ?_
  congr 1
  funext request
  cases request <;> rfl

/-- From a state someone who answers is led to another one by events. -/
def Handler.Led (handler : Handler I σ) : List (Event I) → σ → σ → Prop
  | [], state, later => later = state
  | event :: rest, state, later =>
    (handler event.request state).1 = event.answer ∧
      Led handler rest (handler event.request state).2 later

/-- The events of a run lead to its last state. -/
theorem led_trace (handler : Handler I σ) (program : Program I α) (state : σ) :
    handler.Led (program.trace handler state) state (program.run handler state).2 := by
  induction program generalizing state with
  | done value => rfl
  | ask request rest ih => exact ⟨rfl, ih _ _⟩

end Program

/-! ## Runs of attempts -/

namespace Attempt

variable {I J : Interface} {ε δ α β σ : Type} {handler : Program.Handler I σ} {state later : σ}

/-- From a state an attempt comes to an end with a value or an error, in a later state. -/
abbrev Runs (handler : Program.Handler I σ) (attempt : Attempt I ε α) (state : σ)
    (result : Except ε α) (later : σ) : Prop :=
  attempt.run.run handler state = (result, later)

/-- The events of a run lead from its first state to its last. -/
theorem Runs.ends {attempt : Attempt I ε α} {result : Except ε α}
    (runs : Runs handler attempt state result later) :
    ∃ events, Ends attempt events result ∧ handler.Led events state later := by
  obtain ⟨rfl, rfl⟩ := Prod.mk.inj runs
  exact ⟨_, Program.transcript_trace handler attempt.run state,
    Program.led_trace handler attempt.run state⟩

theorem runs_pure {value : α} {result : Except ε α} :
    Runs handler (Pure.pure value : Attempt I ε α) state result later ↔
      result = .ok value ∧ later = state :=
  Prod.ext_iff.trans (and_congr eq_comm eq_comm)

theorem runs_throw {error : ε} {result : Except ε α} :
    Runs handler (MonadExcept.throw error : Attempt I ε α) state result later ↔
      result = .error error ∧ later = state :=
  Prod.ext_iff.trans (and_congr eq_comm eq_comm)

/-- A sequence ends where its first part fails, or goes on from where it ended. -/
theorem runs_bind {attempt : Attempt I ε α} {next : α → Attempt I ε β} {result : Except ε β} :
    Runs handler (attempt >>= next) state result later ↔
      (∃ error, Runs handler attempt state (.error error) later ∧ result = .error error) ∨
        ∃ first between, Runs handler attempt state (.ok first) between ∧
          Runs handler (next first) between result later := by
  have parts : (attempt >>= next).run.run handler state =
      (ExceptT.bindCont next (attempt.run.run handler state).1).run handler
        (attempt.run.run handler state).2 := Program.run_bind handler attempt.run _ state
  unfold Runs
  rw [parts]
  rcases attempt.run.run handler state with ⟨error | first, between⟩
  · constructor
    · rintro ⟨⟩
      exact .inl ⟨error, rfl, rfl⟩
    · rintro (⟨_, ⟨⟩, rfl⟩ | ⟨_, _, ⟨⟩, -⟩)
      rfl
  · constructor
    · exact fun goesOn => .inr ⟨first, between, rfl, goesOn⟩
    · rintro (⟨_, ⟨⟩, -⟩ | ⟨_, _, ⟨⟩, goesOn⟩)
      exact goesOn

/-- A sequence that gives a value goes through both parts. -/
theorem runs_bind_ok {attempt : Attempt I ε α} {next : α → Attempt I ε β} {value : β} :
    Runs handler (attempt >>= next) state (.ok value) later ↔
      ∃ first between, Runs handler attempt state (.ok first) between ∧
        Runs handler (next first) between (.ok value) later := by
  rw [runs_bind]
  constructor
  · rintro (⟨error, -, ⟨⟩⟩ | parts)
    exact parts
  · exact .inr

/-- Other words for an error change nothing else. -/
theorem runs_mapError {attempt : Attempt I ε α} {change : ε → δ} {result : Except δ α} :
    Runs handler (attempt.mapError change) state result later ↔
      ∃ told, Runs handler attempt state told later ∧ result = told.mapError change := by
  unfold Runs
  rw [run_mapError, Program.run_bind]
  constructor
  · rintro ⟨⟩
    exact ⟨_, rfl, rfl⟩
  · rintro ⟨told, runs, rfl⟩
    rw [runs]
    rfl

theorem runs_mapError_ok {attempt : Attempt I ε α} {change : ε → δ} {value : α} :
    Runs handler (attempt.mapError change) state (.ok value) later ↔
      Runs handler attempt state (.ok value) later := by
  rw [runs_mapError]
  constructor
  · rintro ⟨_ | _, runs, ⟨⟩⟩
    exact runs
  · exact fun runs => ⟨_, runs, rfl⟩

theorem runs_mapError_error {attempt : Attempt I ε α} {change : ε → δ} {error : δ} :
    Runs handler (attempt.mapError change) state (.error error) later ↔
      ∃ cause, Runs handler attempt state (.error cause) later ∧ error = change cause := by
  rw [runs_mapError]
  constructor
  · rintro ⟨cause | _, runs, ⟨⟩⟩
    exact ⟨cause, runs, rfl⟩
  · rintro ⟨cause, runs, rfl⟩
    exact ⟨_, runs, rfl⟩

/-- To go on with whatever comes of an attempt is to go on from where it ended. -/
theorem runs_result_bind {attempt : Attempt I ε α} {next : Except ε α → Attempt I δ β}
    {result : Except δ β} :
    Runs handler (Attempt.result attempt >>= next) state result later ↔
      ∃ told between, Runs handler attempt state told between ∧
        Runs handler (next told) between result later := by
  unfold Runs
  rw [run_result_bind, Program.run_bind]
  constructor
  · exact fun goesOn => ⟨_, _, rfl, goesOn⟩
  · rintro ⟨told, between, runs, goesOn⟩
    rwa [runs]

/-- One request that is never refused. -/
theorem runs_ofProgram {request : I.Request} {result : Except ε (I.Answer request)} :
    Runs handler (Attempt.ofProgram (Program.ask request .done)) state result later ↔
      result = .ok (handler request state).1 ∧ later = (handler request state).2 :=
  Prod.ext_iff.trans (and_congr eq_comm eq_comm)

variable {first : Program.Handler I σ} {second : Program.Handler J σ}

theorem runs_inFirst {attempt : Attempt I ε α} {result : Except ε α} :
    Runs (first.sum second) attempt.inFirst state result later ↔
      Runs first attempt state result later := by
  have same : attempt.inFirst.run.run (first.sum second) state = attempt.run.run first state :=
    Program.run_interpret _ (first.sum second) attempt.run state
  unfold Runs
  rw [same]

theorem runs_inSecond {attempt : Attempt J ε α} {result : Except ε α} :
    Runs (first.sum second) attempt.inSecond state result later ↔
      Runs second attempt state result later := by
  have same : attempt.inSecond.run.run (first.sum second) state = attempt.run.run second state :=
    Program.run_interpret _ (first.sum second) attempt.run state
  unfold Runs
  rw [same]

/-! ### Loops -/

/-- The rounds of a loop that have come to an end. -/
abbrev Rounds (handler : Program.Handler I σ) (f : α → Attempt I ε β) :
    List α → σ → List β → σ → Prop :=
  Chain fun item state value later => Runs handler (f item) state (.ok value) later

/-- A loop goes through all of its rounds, or through those before one that fails. -/
theorem runs_mapM {f : α → Attempt I ε β} {items : List α} {result : Except ε (List β)}
    (runs : Runs handler (items.mapM f) state result later) :
    (∃ values, result = .ok values ∧ Rounds handler f items state values later) ∨
      ∃ before item after values between error, items = before ++ item :: after ∧
        Rounds handler f before state values between ∧
        Runs handler (f item) between (.error error) later ∧ result = .error error := by
  induction items generalizing state result with
  | nil =>
    rw [List.mapM_nil] at runs
    obtain ⟨rfl, rfl⟩ := runs_pure.1 runs
    exact .inl ⟨[], rfl, .nil later⟩
  | cons item more ih =>
    rw [List.mapM_cons] at runs
    rcases runs_bind.1 runs with ⟨error, failed, rfl⟩ | ⟨value, between, first, goesOn⟩
    · exact .inr ⟨[], item, more, [], state, error, rfl, .nil state, failed, rfl⟩
    · rcases runs_bind.1 goesOn with ⟨error, failed, rfl⟩ | ⟨values, last, rest, ended⟩
      · rcases ih failed with ⟨values, ⟨⟩, -⟩ |
          ⟨before, other, after, values, middle, _, rfl, rounds, fails, ⟨⟩⟩
        exact .inr ⟨item :: before, other, after, value :: values, middle, error, rfl,
          .cons first rounds, fails, rfl⟩
      · obtain ⟨rfl, rfl⟩ := runs_pure.1 ended
        rcases ih rest with ⟨_, ⟨⟩, rounds⟩ | ⟨_, _, _, _, _, _, -, -, -, ⟨⟩⟩
        exact .inl ⟨value :: values, rfl, .cons first rounds⟩

end Attempt

end LocaleWatch
