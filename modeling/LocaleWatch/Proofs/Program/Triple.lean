import LocaleWatch.Program

/-!
# What a program guarantees

A program that runs against a handler passes through the handler's states. `Meets` says
of one run what holds of every state in which a request is asked, and what holds of the
value and the last state. A triple says it of all runs from states of a kind; an attempt
that fails leaves a state of the kind that holds throughout.

Stopping a program between two requests leaves one of the states in between, so what holds
throughout also holds wherever a run is stopped.

## Main results

* `Program.meets_bind` — a sequence guarantees what its parts guarantee in turn.
* `Program.Meets.run`, `Program.Meets.runFor` — a guarantee holds of a run that is carried
  out, and of a run that is stopped.
* `Attempt.Triple.bind`, `Attempt.Triple.forM`, `Attempt.Keeps.mapM` — triples of sequences and
  loops from triples of their parts.
-/

namespace LocaleWatch

namespace Program

variable {I : Interface} {α β σ : Type}

/-- From a state, the program asks in states of the kind `always` only, and ends with a
value and a state that are related by `after`. -/
def Meets (handler : Handler I σ) (always : σ → Prop) :
    Program I α → σ → (α → σ → Prop) → Prop
  | .done value, state, after => after value state
  | .ask request next, state, after =>
    always state ∧
      Meets handler always (next (handler request state).1) (handler request state).2 after

variable {handler : Handler I σ} {always : σ → Prop}

/-- A sequence guarantees what its parts guarantee in turn. -/
theorem meets_bind {program : Program I α} {next : α → Program I β} {state : σ}
    {after : β → σ → Prop} :
    Meets handler always (program.bind next) state after ↔
      Meets handler always program state fun value state =>
        Meets handler always (next value) state after := by
  induction program generalizing state with
  | done value => rfl
  | ask request rest ih => simp [Meets, ih]

/-- A guarantee can be weakened. -/
theorem Meets.mono {program : Program I α} {state : σ} {after after' : α → σ → Prop}
    (meets : Meets handler always program state after)
    (weaker : ∀ value state, after value state → after' value state) :
    Meets handler always program state after' := by
  induction program generalizing state with
  | done value => exact weaker value state meets
  | ask request rest ih => exact ⟨meets.1, ih _ meets.2⟩

/-- A guarantee of the states in between can be weakened, too. -/
theorem Meets.throughout {program : Program I α} {state : σ} {always' : σ → Prop}
    {after : α → σ → Prop} (meets : Meets handler always program state after)
    (weaker : ∀ state, always state → always' state) :
    Meets handler always' program state after := by
  induction program generalizing state with
  | done value => exact meets
  | ask request rest ih => exact ⟨weaker state meets.1, ih _ meets.2⟩

/-- The value and the state that are guaranteed something are those of the run. -/
theorem Meets.sharpen {program : Program I α} {state : σ} {after : α → σ → Prop}
    (meets : Meets handler always program state after) :
    Meets handler always program state fun value last =>
      after value last ∧ program.run handler state = (value, last) := by
  induction program generalizing state with
  | done value => exact ⟨meets, rfl⟩
  | ask request rest ih => exact ⟨meets.1, ih _ meets.2⟩

/-- A guarantee holds of the value and the last state of a run. -/
theorem Meets.run {program : Program I α} {state : σ} {after : α → σ → Prop}
    (meets : Meets handler always program state after) :
    after (program.run handler state).1 (program.run handler state).2 := by
  induction program generalizing state with
  | done value => exact meets
  | ask request rest ih => exact ih _ meets.2

/-- Without a demand on the states in between, a guarantee is what holds of the run. -/
theorem meets_iff_run {program : Program I α} {state : σ} {after : α → σ → Prop} :
    Meets handler (fun _ => True) program state after ↔
      after (program.run handler state).1 (program.run handler state).2 := by
  induction program generalizing state with
  | done value => rfl
  | ask request rest ih => simp [Meets, ih]

/-- Wherever a run is stopped, it is in a state of the kind that holds throughout. -/
theorem Meets.runFor {program : Program I α} {state : σ} {after : α → σ → Prop}
    (meets : Meets handler always program state after)
    (last : ∀ value state, after value state → always state) (count : Nat) :
    always (program.runFor handler count state).2 := by
  induction program generalizing state count with
  | done value => cases count <;> exact last value state meets
  | ask request rest ih =>
    cases count with
    | zero => exact meets.1
    | succ count => exact ih _ meets.2 count

end Program

namespace Attempt

variable {I : Interface} {ε δ α β σ : Type}

/-- From each state of the kind `before`, the attempt asks in states of the kind `always`
only, and either gives a value with `after` or fails in a state of the kind `always`. -/
def Triple (handler : Program.Handler I σ) (always before : σ → Prop) (attempt : Attempt I ε α)
    (after : α → σ → Prop) : Prop :=
  ∀ state, before state → Program.Meets handler always attempt.run state fun
    | .ok value, state => after value state
    | .error _, state => always state

namespace Triple

variable {handler : Program.Handler I σ} {always before : σ → Prop}

theorem pure {value : α} {after : α → σ → Prop}
    (holds : ∀ state, before state → after value state) :
    Triple handler always before (Pure.pure value : Attempt I ε α) after :=
  holds

theorem throw {error : ε} {after : α → σ → Prop} (holds : ∀ state, before state → always state) :
    Triple handler always before (MonadExcept.throw error : Attempt I ε α) after :=
  holds

/-- A sequence guarantees what its parts guarantee in turn. -/
theorem bind {attempt : Attempt I ε α} {next : α → Attempt I ε β} {between : α → σ → Prop}
    {after : β → σ → Prop} (first : Triple handler always before attempt between)
    (second : ∀ value, Triple handler always (between value) (next value) after) :
    Triple handler always before (attempt >>= next) after := by
  intro state holds
  refine Program.meets_bind.2 ((first state holds).mono ?_)
  rintro (error | value) state holds
  · exact holds
  · exact second value state holds

/-- A triple can demand more and guarantee less. -/
theorem mono {attempt : Attempt I ε α} {before' : σ → Prop} {after after' : α → σ → Prop}
    (triple : Triple handler always before attempt after)
    (stronger : ∀ state, before' state → before state)
    (weaker : ∀ value state, after value state → after' value state) :
    Triple handler always before' attempt after' := by
  intro state holds
  refine (triple state (stronger state holds)).mono ?_
  rintro (error | value) state holds
  · exact holds
  · exact weaker value state holds

/-- A triple can demand more. -/
theorem demand {attempt : Attempt I ε α} {before' : σ → Prop} {after : α → σ → Prop}
    (triple : Triple handler always before attempt after)
    (stronger : ∀ state, before' state → before state) :
    Triple handler always before' attempt after :=
  fun state holds => triple state (stronger state holds)

/-- A triple can promise less of the states in between. -/
theorem throughout {attempt : Attempt I ε α} {always' : σ → Prop} {after : α → σ → Prop}
    (triple : Triple handler always before attempt after)
    (weaker : ∀ state, always state → always' state) :
    Triple handler always' before attempt after := by
  intro state holds
  refine ((triple state holds).throughout weaker).mono ?_
  rintro (error | value) last met
  · exact weaker last met
  · exact met

/-- A fact that holds beforehand may be used. -/
theorem ofFact {fact : Prop} {attempt : Attempt I ε α} {after : α → σ → Prop}
    (triple : fact → Triple handler always before attempt after) :
    Triple handler always (fun state => before state ∧ fact) attempt after :=
  fun state holds => triple holds.2 state holds.1

/-- Other words for an error change no guarantee. -/
theorem mapError {attempt : Attempt I ε α} {change : ε → δ} {after : α → σ → Prop}
    (triple : Triple handler always before attempt after) :
    Triple handler always before (attempt.mapError change) after := by
  intro state holds
  refine Program.meets_bind.2 ((triple state holds).mono ?_)
  rintro (error | value) state holds
  · exact holds
  · exact holds

/-- One request that is never refused. -/
theorem ofProgram {request : I.Request} {after : I.Answer request → σ → Prop}
    (asks : ∀ state, before state → always state)
    (step : ∀ state, before state → after (handler request state).1 (handler request state).2) :
    Triple handler always before
      (Attempt.ofProgram (Program.ask request .done) : Attempt I ε (I.Answer request)) after :=
  fun state holds => ⟨asks state holds, step state holds⟩

/-- One request that may be refused. -/
theorem ofResult (request : I.Request) (result : I.Answer request → Except ε α)
    {after : α → σ → Prop} (asks : ∀ state, before state → always state)
    (granted : ∀ state value, before state → result (handler request state).1 = .ok value →
      after value (handler request state).2)
    (refused : ∀ state error, before state → result (handler request state).1 = .error error →
      always (handler request state).2) :
    Triple handler always before
      (Attempt.ofResult (Program.ask request fun told => .done (result told))) after := by
  intro state holds
  refine ⟨asks state holds, ?_⟩
  show match result (handler request state).1, (handler request state).2 with
    | .ok value, state => after value state
    | .error _, state => always state
  cases told : result (handler request state).1 with
  | error error => exact refused state error holds told
  | ok value => exact granted state value holds told

/-- A loop over a list that goes from one kind of states to the next with each item. -/
theorem forM {f : α → Attempt I ε PUnit} (inv : List α → σ → Prop) {items : List α}
    (step : ∀ done item, item ∈ items →
      Triple handler always (inv done) (f item) fun _ => inv (done ++ [item])) :
    ∀ done, Triple handler always (inv done) (items.forM f) fun _ => inv (done ++ items) := by
  induction items with
  | nil =>
    intro done
    exact pure fun state holds => by rwa [List.append_nil]
  | cons item more ih =>
    intro done
    refine bind (step done item List.mem_cons_self) fun _ => ?_
    have rest := ih (fun done other mem => step done other (List.mem_cons_of_mem _ mem))
      (done ++ [item])
    rwa [List.append_assoc, List.singleton_append] at rest

end Triple

/-! ## Kinds of states that are kept -/

/-- The attempt keeps a kind of states throughout, and a value that it gives is `related`
to what is known. -/
def Keeps (handler : Program.Handler I σ) (kind : σ → Prop) (attempt : Attempt I ε α)
    (related : α → Prop) : Prop :=
  Triple handler kind kind attempt fun value state => kind state ∧ related value

namespace Keeps

variable {handler : Program.Handler I σ} {kind : σ → Prop}

theorem pure {value : α} {related : α → Prop} (holds : related value) :
    Keeps handler kind (Pure.pure value : Attempt I ε α) related :=
  Triple.pure fun _ kept => ⟨kept, holds⟩

theorem throw {error : ε} {related : α → Prop} :
    Keeps handler kind (MonadExcept.throw error : Attempt I ε α) related :=
  Triple.throw fun _ kept => kept

theorem mono {attempt : Attempt I ε α} {related related' : α → Prop}
    (keeps : Keeps handler kind attempt related)
    (weaker : ∀ value, related value → related' value) :
    Keeps handler kind attempt related' :=
  Triple.mono keeps (fun _ kept => kept) fun value _ holds => ⟨holds.1, weaker value holds.2⟩

theorem bind {attempt : Attempt I ε α} {next : α → Attempt I ε β} {related : α → Prop}
    {related' : β → Prop} (first : Keeps handler kind attempt related)
    (second : ∀ value, related value → Keeps handler kind (next value) related') :
    Keeps handler kind (attempt >>= next) related' :=
  Triple.bind first fun value => Triple.ofFact (second value)

theorem mapError {attempt : Attempt I ε α} {change : ε → δ} {related : α → Prop}
    (keeps : Keeps handler kind attempt related) :
    Keeps handler kind (attempt.mapError change) related :=
  Triple.mapError keeps

/-- A loop over a list finds out about each item what one round finds out, and nothing else. -/
theorem mapM {f : α → Attempt I ε β} {items : List α} {related : α → β → Prop}
    (keeps : ∀ item ∈ items, Keeps handler kind (f item) (related item)) :
    Keeps handler kind (items.mapM f) fun values =>
      (∀ item ∈ items, ∃ value ∈ values, related item value) ∧
        ∀ value ∈ values, ∃ item ∈ items, related item value := by
  induction items with
  | nil =>
    rw [List.mapM_nil]
    exact pure ⟨nofun, nofun⟩
  | cons item more ih =>
    rw [List.mapM_cons]
    refine bind (keeps item List.mem_cons_self) fun value found => ?_
    refine bind (ih fun other mem => keeps other (List.mem_cons_of_mem _ mem)) fun values rest => ?_
    refine pure ⟨fun other mem => ?_, fun other mem => ?_⟩
    · rcases List.mem_cons.1 mem with rfl | mem
      · exact ⟨value, List.mem_cons_self, found⟩
      · obtain ⟨result, isIn, holds⟩ := rest.1 other mem
        exact ⟨result, List.mem_cons_of_mem _ isIn, holds⟩
    · rcases List.mem_cons.1 mem with rfl | mem
      · exact ⟨item, List.mem_cons_self, found⟩
      · obtain ⟨source, isIn, holds⟩ := rest.2 other mem
        exact ⟨source, List.mem_cons_of_mem _ isIn, holds⟩

/-- A sequence whose first part finds out nothing of interest. -/
theorem andThen {attempt : Attempt I ε α} {next : α → Attempt I ε β} {related : β → Prop}
    (first : Keeps handler kind attempt fun _ => True)
    (second : ∀ value, Keeps handler kind (next value) related) :
    Keeps handler kind (attempt >>= next) related :=
  first.bind fun value _ => second value

theorem forEach {f : α → Attempt I ε β} {items : List α}
    (keeps : ∀ item, Keeps handler kind (f item) fun _ => True) :
    Keeps handler kind (items.mapM f) fun _ => True :=
  (mapM fun item _ => keeps item).mono fun _ _ => trivial

theorem forM {f : α → Attempt I ε PUnit} {items : List α}
    (keeps : ∀ item ∈ items, Keeps handler kind (f item) fun _ => True) :
    Keeps handler kind (items.forM f) fun _ => True := by
  induction items with
  | nil => exact pure trivial
  | cons item more ih =>
    refine bind (keeps item List.mem_cons_self) fun _ _ => ?_
    exact ih fun other mem => keeps other (List.mem_cons_of_mem _ mem)

end Keeps

end Attempt

end LocaleWatch
