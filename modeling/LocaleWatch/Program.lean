/-!
# Programs over an interface

The tracker asks a repository, a cache and the system for everything that it does not
compute itself. What may be asked is an *interface*: a type of requests, and for each
request the type of its answers. A *program* is a tree: it is done with a value, or it
asks a request and goes on with the answer. It says nothing about who answers; that is a
handler's part, so one program can be run against a real system, against tables, or
against everything that a system could possibly answer.

## Main results

* `Program.run_bind` — a sequence is run by running its parts one after the other.
* `Program.run_interpret` — running an interpreted program is running the program with
  every request answered by its interpretation.
-/

namespace LocaleWatch

/-- What a program may ask, and what it is told. -/
structure Interface where
  Request : Type
  Answer : Request → Type

/-- A program that asks requests of an interface and ends with a value. -/
inductive Program (I : Interface) (α : Type) where
  | done (value : α)
  | ask (request : I.Request) (next : I.Answer request → Program I α)

namespace Program

variable {I J : Interface} {α β σ : Type}

/-- Run a program and go on with its value. -/
def bind : Program I α → (α → Program I β) → Program I β
  | .done value, next => next value
  | .ask request rest, next => .ask request fun answer => (rest answer).bind next

instance : Monad (Program I) where
  pure := .done
  bind := bind

/-- Ask one request. -/
def request (r : I.Request) : Program I (I.Answer r) := .ask r .done

/-- A handler with a state: it answers each request and goes to its next state. -/
abbrev Handler (I : Interface) (σ : Type) : Type :=
  (r : I.Request) → σ → I.Answer r × σ

/-- Run a program against a handler. -/
def run (handler : Handler I σ) : Program I α → σ → α × σ
  | .done value, state => (value, state)
  | .ask request next, state =>
    let (answer, state) := handler request state
    run handler (next answer) state

/-- Answer every request by a program over another interface. -/
def interpret (meaning : (r : I.Request) → Program J (I.Answer r)) : Program I α → Program J α
  | .done value => .done value
  | .ask request next => (meaning request).bind fun answer => interpret meaning (next answer)

/-- Run a program until it has asked `count` requests: the state then reached, and its
value if it was done by then. -/
def runFor (handler : Handler I σ) : (count : Nat) → Program I α → σ → Option α × σ
  | _, .done value, state => (some value, state)
  | 0, .ask _ _, state => (none, state)
  | count + 1, .ask request next, state =>
    let (answer, state) := handler request state
    runFor handler count (next answer) state

/-! ## Laws -/

@[simp] theorem done_bind (value : α) (next : α → Program I β) :
    (Program.done value).bind next = next value := rfl

@[simp] theorem ask_bind (r : I.Request) (rest : I.Answer r → Program I α)
    (next : α → Program I β) :
    (Program.ask r rest).bind next = .ask r fun answer => (rest answer).bind next := rfl

theorem bind_done (program : Program I α) : program.bind .done = program := by
  induction program with
  | done value => rfl
  | ask r rest ih => simp [ih]

theorem bind_assoc {γ : Type} (program : Program I α) (next : α → Program I β)
    (last : β → Program I γ) :
    (program.bind next).bind last = program.bind fun value => (next value).bind last := by
  induction program with
  | done value => rfl
  | ask r rest ih => simp [ih]

instance : LawfulMonad (Program I) :=
  LawfulMonad.mk' _ bind_done (fun _ _ => rfl) bind_assoc

@[simp] theorem run_done (handler : Handler I σ) (value : α) (state : σ) :
    run handler (.done value) state = (value, state) := rfl

@[simp] theorem run_ask (handler : Handler I σ) (r : I.Request)
    (next : I.Answer r → Program I α) (state : σ) :
    run handler (.ask r next) state =
      run handler (next (handler r state).1) (handler r state).2 := rfl

/-- A sequence is run by running its parts one after the other. -/
theorem run_bind (handler : Handler I σ) (program : Program I α) (next : α → Program I β)
    (state : σ) :
    run handler (program.bind next) state =
      run handler (next (run handler program state).1) (run handler program state).2 := by
  induction program generalizing state with
  | done value => rfl
  | ask r rest ih => simp [ih]

/-- Running an interpreted program is running the program with every request answered by
its interpretation. -/
theorem run_interpret (meaning : (r : I.Request) → Program J (I.Answer r))
    (handler : Handler J σ) (program : Program I α) (state : σ) :
    run handler (interpret meaning program) state =
      run (fun r => run handler (meaning r)) program state := by
  induction program generalizing state with
  | done value => rfl
  | ask r rest ih => simp [interpret, run_bind, ih]

end Program

/-- The requests of two interfaces. -/
def Interface.sum (I J : Interface) : Interface where
  Request := I.Request ⊕ J.Request
  Answer
    | .inl r => I.Answer r
    | .inr r => J.Answer r

namespace Program

variable {I J : Interface} {α : Type}

/-- A program over the first of two interfaces. -/
def inFirst (program : Program I α) : Program (I.sum J) α :=
  program.interpret fun r => (.ask (.inl r) .done : Program (I.sum J) (I.Answer r))

/-- A program over the second of two interfaces. -/
def inSecond (program : Program J α) : Program (I.sum J) α :=
  program.interpret fun r => (.ask (.inr r) .done : Program (I.sum J) (J.Answer r))

/-- Answer the requests of the first interface by programs over the second. -/
def resolveFirst (meaning : (r : I.Request) → Program J (I.Answer r)) :
    Program (I.sum J) α → Program J α :=
  interpret fun
    | .inl r => meaning r
    | .inr r => .ask r .done

end Program

/-- A program that may end with an error. -/
abbrev Attempt (I : Interface) (ε α : Type) : Type := ExceptT ε (Program I) α

namespace Attempt

variable {I : Interface} {ε δ α : Type}

/-- Run a program that has no errors. -/
def ofProgram (program : Program I α) : Attempt I ε α :=
  ExceptT.lift program

/-- Ask a request that may be refused. -/
def ofResult (program : Program I (Except ε α)) : Attempt I ε α := program

/-- Change the errors. -/
def mapError (change : ε → δ) (attempt : Attempt I ε α) : Attempt I δ α :=
  ExceptT.mk do
    match ← attempt.run with
    | .ok value => return .ok value
    | .error error => return .error (change error)

/-- An attempt over the first of two interfaces. -/
def inFirst {J : Interface} (attempt : Attempt I ε α) : Attempt (I.sum J) ε α :=
  ExceptT.mk attempt.run.inFirst

/-- An attempt over the second of two interfaces. -/
def inSecond {J : Interface} (attempt : Attempt I ε α) : Attempt (J.sum I) ε α :=
  ExceptT.mk attempt.run.inSecond

/-- Run an attempt to its end and give what came of it. -/
def result (attempt : Attempt I ε α) : Attempt I δ (Except ε α) :=
  ExceptT.lift attempt.run

end Attempt

end LocaleWatch
