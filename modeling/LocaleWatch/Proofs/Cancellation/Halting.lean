import LocaleWatch.Proofs.Cancellation.Heeding
import LocaleWatch.Proofs.Events

/-!
# What is still done once the token is set

The token is set before an operation starts or while the repository is asked; it stays set, and the
repository refuses every query from then on. An operation is then in the middle of its work, which
may be anywhere in its loops and lookups. Because it heeds the token, all that it still does is to
remove entries, and only if it is one that removes any; the first thing that it needs beyond that
is refused and ends it.

## Main results

* `Cancellable.halts` — what is left of a program when the token is set.
* `Halting.kinds`, `Halting.error_of_refusal` — what that may be, and how it ends.
-/

namespace LocaleWatch

/-- Surroundings with a token that is set while the repository is asked, or by the order to cancel.
It stays set, and once it is, the repository refuses every query. -/
structure Cancellable (σ : Type) extends Surroundings σ where
  isSet : σ → Bool
  looked : ∀ state, (handler .isCancelled state).1 = isSet state
  stays : ∀ request state, isSet state = true → isSet (handler request state).2 = true
  spared : ∀ request state, (∀ query, request ≠ .query query) → request ≠ .cancel →
    isSet state = false → isSet (handler request state).2 = false
  refuses : ∀ query state, isSet state = true →
    (handler (.query query) state).1 = .error (.cancelled query.operation)

/-- Whether nothing was done because the token was set: it was seen to be, or the repository refused
a query for that reason. -/
def Event.IsRefusal : Event Tracking → Prop
  | ⟨.isCancelled, told⟩ => told = true
  | ⟨.query query, told⟩ => told = .error (.cancelled query.operation)
  | _ => False

/-- What an attempt still does and what comes of it when it is cancelled: some removals, if it is
one that `removes`; and if it is refused something, it ends with an error that says so. -/
inductive Halting {α : Type} (removes : Prop) :
    List (Event Tracking) → Except HistoryError α → Prop where
  | ended (result : Except HistoryError α) : Halting removes [] result
  | refused {event : Event Tracking} {error : HistoryError} (isRefusal : event.IsRefusal)
    (cancelled : error.IsCancelled) : Halting removes [event] (.error error)
  | delete {category key : String} {told : Except CacheError Unit} {events : List (Event Tracking)}
    {result : Except HistoryError α} (may : removes) (rest : Halting removes events result) :
    Halting removes (.delete category key told :: events) result

namespace Halting

variable {α : Type} {removes : Prop} {events : List (Event Tracking)}
  {result : Except HistoryError α}

/-- All that is left is refused or a removal. -/
theorem kinds (halting : Halting removes events result) :
    ∀ event ∈ events, event.IsRefusal ∨ removes ∧ event.request.IsRemoval := by
  induction halting with
  | ended result => exact nofun
  | refused isRefusal cancelled =>
    intro event mem
    rw [List.mem_singleton.1 mem]
    exact .inl isRefusal
  | delete may rest ih =>
    intro event mem
    rcases List.mem_cons.1 mem with rfl | mem
    · exact .inr ⟨may, trivial⟩
    · exact ih event mem

/-- What is refused something ends with an error that says that the run was cancelled. -/
theorem error_of_refusal (halting : Halting removes events result) {event : Event Tracking}
    (mem : event ∈ events) (isRefusal : event.IsRefusal) :
    ∃ error, result = .error error ∧ error.IsCancelled := by
  induction halting with
  | ended result => contradiction
  | refused _ cancelled => exact ⟨_, rfl, cancelled⟩
  | delete may rest ih =>
    rcases List.mem_cons.1 mem with rfl | mem
    · cases isRefusal
    · exact ih mem

end Halting

theorem Event.IsRefusal.sparesEntries {event : Event Tracking} (isRefusal : event.IsRefusal) :
    event.request.sparesEntries = true := by
  obtain ⟨request, told⟩ := event
  cases request with
  | write category key bytes => cases isRefusal
  | delete category key => cases isRefusal
  | _ => rfl

namespace Cancellable

variable {σ α : Type} (H : Cancellable σ) {removes : Prop}

/-- A look that finds the token unset leaves it so. -/
theorem unset_of_look {state : σ} (told : (H.handler .isCancelled state).1 = false) :
    H.isSet (H.handler .isCancelled state).2 = false :=
  H.spared _ state nofun nofun ((H.looked state).symm.trans told)

/-- With the token set, a program that heeds it halts. -/
theorem halts_set {program : Program Tracking (Except HistoryError α)}
    (heeds : Heeds removes program) {state : σ} (set : H.isSet state = true) :
    Halting removes (program.trace H.handler state) (program.run H.handler state).1 := by
  induction heeds generalizing state with
  | done result => exact .ended result
  | @query query next error refused cancelled rest ih =>
    have last (told : Except RepositoryError query.Result) (after : σ)
        (same : told = .error (.cancelled query.operation)) :
        Halting removes (.query query told :: (next told).trace H.handler after)
          ((next told).run H.handler after).1 := by
      rw [same, refused]
      exact .refused rfl cancelled
    exact last _ _ (H.refuses query state set)
  | @access request next later error stops goesOn isAccess cancelled rest ih =>
    have last (told : Bool) (after : σ) (same : told = true) :
        Halting removes (.isCancelled told :: (next told).trace H.handler after)
          ((next told).run H.handler after).1 := by
      rw [same, stops]
      exact .refused rfl cancelled
    exact last _ _ ((H.looked state).trans set)
  | delete may rest ih => exact .delete may (ih _ (H.stays _ state set))

/-- From the moment on in which the token is set, a program that heeds it halts. -/
theorem halts {program : Program Tracking (Except HistoryError α)}
    (heeds : Heeds removes program) {state : σ} (count : Nat)
    (set : H.isSet (program.runFor H.handler count state).2 = true) :
    Halting removes ((program.trace H.handler state).drop count)
      (program.run H.handler state).1 := by
  induction heeds generalizing state count with
  | done result =>
    rw [Program.trace, List.drop_nil]
    exact .ended result
  | query refused cancelled rest ih =>
    cases count with
    | zero => exact H.halts_set (.query refused cancelled rest) set
    | succ count => exact ih _ count set
  | @access request next later error stops goesOn isAccess cancelled rest ih =>
    cases count with
    | zero => exact H.halts_set (.access stops goesOn isAccess cancelled rest) set
    | succ count =>
      have behind (told : Bool) (after : σ) (still : told = false → H.isSet after = false)
          (set : H.isSet ((next told).runFor H.handler count after).2 = true) :
          Halting removes (((next told).trace H.handler after).drop count)
            ((next told).run H.handler after).1 := by
        cases told with
        | true =>
          rw [stops, Program.trace, List.drop_nil]
          exact .ended _
        | false =>
          rw [goesOn] at set ⊢
          cases count with
          | zero => exact absurd ((still rfl).symm.trans set) Bool.false_ne_true
          | succ count => exact ih _ count set
      exact behind _ _
        (fun told => H.unset_of_look told) set
  | delete may rest ih =>
    cases count with
    | zero => exact H.halts_set (.delete may rest) set
    | succ count => exact ih _ count set

end Cancellable

end LocaleWatch
