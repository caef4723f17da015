import LocaleWatch.Proofs.Program.Transcript
import LocaleWatch.Proofs.Program.Triple

/-!
# Contracts between a program and who answers it

A triple speaks of the states of one handler. Much of what a program does can be said without
them: it asks allowed requests only, as long as every answer is as it was promised. That is a
matter of its tree, so it is found out from the parts of the program, and it holds whoever
answers. A handler that keeps its side of the contract in all states of a kind, and stays in that
kind when an allowed request is asked, then stays in it for a whole run.

The handler need not answer a request in one step. It may answer by a program of its own that runs
on another system and may be stopped in the middle; the kind of states is one of that system then.

## Main results

* `Attempt.Honours.bind`, `Attempt.Honours.mapM`, `Attempt.Honours.forM` — sequences and loops
  honour what their parts honour.
* `Program.Honours.interpret` — what an honoured contract is good for.
* `Attempt.Gives.of_run` — what is known of every value that an attempt gives.
-/

namespace LocaleWatch

/-- What may be asked, and what is promised of the answers. -/
structure Contract (I : Interface) where
  Allows : I.Request → Prop
  Promises : (request : I.Request) → I.Answer request → Prop

/-- Everything may be asked, and nothing is promised. -/
def Contract.free (I : Interface) : Contract I := ⟨fun _ => True, fun _ _ => True⟩

namespace Program

variable {I J : Interface} {α β σ : Type} {contract : Contract I}

/-- As long as the answers are as promised, the program asks what it may ask, and a value with
which it ends is of the kind `after`. -/
def Honours (contract : Contract I) : Program I α → (α → Prop) → Prop
  | .done value, after => after value
  | .ask request next, after =>
    contract.Allows request ∧
      ∀ answer, contract.Promises request answer → Honours contract (next answer) after

/-- A sequence honours what its parts honour in turn. -/
theorem Honours.bind {program : Program I α} {next : α → Program I β} {between : α → Prop}
    {after : β → Prop} (first : Honours contract program between)
    (second : ∀ value, between value → Honours contract (next value) after) :
    Honours contract (program.bind next) after := by
  induction program with
  | done value => exact second value first
  | ask request rest ih => exact ⟨first.1, fun answer told => ih answer (first.2 answer told)⟩

/-- Less can be said of the value. -/
theorem Honours.mono {program : Program I α} {after after' : α → Prop}
    (honours : Honours contract program after) (weaker : ∀ value, after value → after' value) :
    Honours contract program after' := by
  induction program with
  | done value => exact weaker value honours
  | ask request rest ih => exact ⟨honours.1, fun answer told => ih answer (honours.2 answer told)⟩

/-- Of the value of a run is known what the program honours the contract with. -/
theorem Honours.run {handler : Handler I σ} {program : Program I α} {after : α → Prop}
    (honours : Honours contract program after)
    (kept : ∀ request state, contract.Promises request (handler request state).1) (state : σ) :
    after (program.run handler state).1 := by
  induction program generalizing state with
  | done value => exact honours
  | ask request rest ih => exact ih _ (honours.2 _ (kept request state)) _

/-- Every program honours the contract without terms. -/
theorem honours_free (program : Program I α) : Honours (.free I) program fun _ => True := by
  induction program with
  | done value => trivial
  | ask request rest ih => exact ⟨trivial, fun answer _ => ih answer⟩

/-- Where every allowed request is answered as promised and keeps a kind of states, a program that
honours the contract keeps it, too. -/
theorem Honours.interpret {meaning : (r : I.Request) → Program J (I.Answer r)}
    {handler : Handler J σ} {kind : σ → Prop} {program : Program I α} {after : α → Prop}
    (honours : Honours contract program after)
    (answered : ∀ request, contract.Allows request → ∀ state, kind state →
      Meets handler kind (meaning request) state fun answer state =>
        kind state ∧ contract.Promises request answer)
    {state : σ} (holds : kind state) :
    Meets handler kind (program.interpret meaning) state fun value state =>
      kind state ∧ after value := by
  induction program generalizing state with
  | done value => exact ⟨holds, honours⟩
  | ask request rest ih =>
    refine meets_bind.2 ((answered request honours.1 state holds).mono fun answer state told => ?_)
    exact ih answer (honours.2 answer told.2) told.1

/-! ## Kinds of states that a program keeps -/

variable {handler : Handler I σ} {kind : σ → Prop}

/-- What holds wherever a run is stopped holds throughout. -/
theorem meets_of_runFor {program : Program I α} {state : σ}
    (holds : ∀ count, kind (program.runFor handler count state).2) :
    Meets handler kind program state fun _ => kind := by
  induction program generalizing state with
  | done value => exact holds 0
  | ask request rest ih => exact ⟨holds 0, ih _ fun count => holds (count + 1)⟩

/-- What each request of a kind keeps is kept by a program that asks such requests only. -/
theorem Asks.meets {allowed : I.Request → Prop} {program : Program I α}
    (asks : Asks allowed program)
    (keeps : ∀ request, allowed request → ∀ state, kind state → kind (handler request state).2)
    {state : σ} (holds : kind state) : Meets handler kind program state fun _ => kind := by
  induction program generalizing state with
  | done value => exact holds
  | ask request rest ih =>
    exact ⟨holds, ih _ (asks.2 _) (keeps request asks.1 state holds)⟩

end Program

namespace Attempt

variable {I : Interface} {ε δ α β : Type} {contract : Contract I}

/-- As long as the answers are as promised, the attempt asks what it may ask; a value that it gives
is of the kind `related`, and an error of the kind `fair`. -/
def Honours (contract : Contract I) (fair : ε → Prop) (attempt : Attempt I ε α)
    (related : α → Prop) : Prop :=
  Program.Honours contract attempt.run fun
    | .ok value => related value
    | .error error => fair error

namespace Honours

variable {fair : ε → Prop}

theorem pure {value : α} {related : α → Prop} (holds : related value) :
    Honours contract fair (Pure.pure value : Attempt I ε α) related :=
  holds

theorem throw {error : ε} {related : α → Prop} (holds : fair error) :
    Honours contract fair (MonadExcept.throw error : Attempt I ε α) related :=
  holds

/-- A sequence honours what its parts honour in turn. -/
theorem bind {attempt : Attempt I ε α} {next : α → Attempt I ε β} {between : α → Prop}
    {related : β → Prop} (first : Honours contract fair attempt between)
    (second : ∀ value, between value → Honours contract fair (next value) related) :
    Honours contract fair (attempt >>= next) related := by
  refine Program.Honours.bind first ?_
  rintro (error | value) holds
  · exact holds
  · exact second value holds

/-- A sequence whose first part finds out nothing of interest. -/
theorem andThen {attempt : Attempt I ε α} {next : α → Attempt I ε β} {related : β → Prop}
    (first : Honours contract fair attempt fun _ => True)
    (second : ∀ value, Honours contract fair (next value) related) :
    Honours contract fair (attempt >>= next) related :=
  first.bind fun value _ => second value

/-- Less can be said of the value. -/
theorem mono {attempt : Attempt I ε α} {related related' : α → Prop}
    (honours : Honours contract fair attempt related)
    (weaker : ∀ value, related value → related' value) :
    Honours contract fair attempt related' := by
  refine Program.Honours.mono honours ?_
  rintro (error | value) holds
  · exact holds
  · exact weaker value holds

/-- Errors in other words are as fair as the words are. -/
theorem mapError {attempt : Attempt I δ α} {change : δ → ε} {related : α → Prop}
    (honours : Honours contract (fair ∘ change) attempt related) :
    Honours contract fair (attempt.mapError change) related := by
  refine Program.Honours.bind honours ?_
  rintro (error | value) holds
  · exact holds
  · exact holds

/-- One request that may be refused. -/
theorem ofResult {request : I.Request} {told : I.Answer request → Except ε α}
    {related : α → Prop} (may : contract.Allows request)
    (granted : ∀ answer value, contract.Promises request answer → told answer = .ok value →
      related value)
    (refused : ∀ answer error, contract.Promises request answer → told answer = .error error →
      fair error) :
    Honours contract fair
      (Attempt.ofResult (Program.ask request fun answer => .done (told answer))) related := by
  refine ⟨may, fun answer promised => ?_⟩
  show match told answer with
    | .ok value => related value
    | .error error => fair error
  cases result : told answer with
  | ok value => exact granted answer value promised result
  | error error => exact refused answer error promised result

theorem mapM {f : α → Attempt I ε β} {items : List α}
    (honours : ∀ item, Honours contract fair (f item) fun _ => True) :
    Honours contract fair (items.mapM f) fun _ => True := by
  induction items with
  | nil => exact pure trivial
  | cons item more ih =>
    rw [List.mapM_cons]
    exact (honours item).andThen fun value => ih.andThen fun rest => pure trivial

theorem forM {f : α → Attempt I ε PUnit} {items : List α}
    (honours : ∀ item, Honours contract fair (f item) fun _ => True) :
    Honours contract fair (items.forM f) fun _ => True := by
  induction items with
  | nil => exact pure trivial
  | cons item more ih => exact (honours item).andThen fun _ => ih

end Honours

/-! ## Values that are given -/

/-- Whatever is told, a value that the attempt gives is of the kind `related`. -/
abbrev Gives (attempt : Attempt I ε α) (related : α → Prop) : Prop :=
  Honours (.free I) (fun _ => True) attempt related

namespace Gives

/-- A sequence of whose first part nothing is to be known. -/
theorem after {attempt : Attempt I ε α} {next : α → Attempt I ε β} {related : β → Prop}
    (second : ∀ value, Gives (next value) related) : Gives (attempt >>= next) related := by
  refine Honours.andThen ((Program.honours_free attempt.run).mono ?_) second
  rintro (error | value) _
  · trivial
  · trivial

/-- What is known of a value that is given holds of the value of a run. -/
theorem of_run {σ : Type} {handler : Program.Handler I σ} {attempt : Attempt I ε α}
    {related : α → Prop} (gives : Gives attempt related) {state : σ} {value : α}
    (given : (attempt.run.run handler state).1 = .ok value) : related value := by
  have known : match (attempt.run.run handler state).1 with
      | .ok value => related value
      | .error _ => True := Program.Honours.run gives (fun _ _ => trivial) state
  rwa [given] at known

end Gives

end Attempt

end LocaleWatch
