import LocaleWatch.Proofs.Program.Transcript
import LocaleWatch.Replacement

/-!
# The names that a replacement tries

A replacement makes the directory, tries temporary names until one is free, and then writes,
syncs and renames the file that it made. The search is followed round by round: a round asks for a
number and tries its name, and what comes of that decides whether there is another round. No name
is tried but temporary ones, and none after one that was free.

## Main results

* `Replacement.run_withFreeName_succ` — one round of the search.
* `Replacement.asks_within` — which names are tried.
* `Replacement.run_eq` — a replacement is a search through as many names as there are numbers.
-/

namespace LocaleWatch

namespace Event

/-- A file was to be made. -/
abbrev created (file : Path) (told : Except Fault Unit) : Event Host :=
  ⟨Host.Request.createNew file, told⟩

/-- A number was given out. -/
abbrev ticketed (ticket : Nat × UInt64) : Event Host := ⟨Host.Request.ticket, ticket⟩

/-- Directories were to be made. -/
abbrev directed (directory : Path) (told : Except Fault Unit) : Event Host :=
  ⟨Host.Request.makeDirectories directory, told⟩

/-- A file was to be removed. -/
abbrev removed (file : Path) (told : Except Fault Unit) : Event Host :=
  ⟨Host.Request.remove file, told⟩

/-- Whether a name is tried. -/
def tries : Event Host → Bool
  | ⟨.createNew _, _⟩ => true
  | _ => false

/-- Whether the system failed to remove a file. -/
def leaves : Event Host → Bool
  | ⟨.remove _, .error _⟩ => true
  | _ => false

end Event

namespace Replacement

variable {file draft : Path} {bytes : List UInt8} {rounds : Nat}

/-! ## Step by step -/

/-- What is done when the answer for a name is known. -/
def goOn (file : Path) (bytes : List UInt8) (rounds : Nat) (draft : Path) :
    Except Fault Unit → Program Host (Except Fault Bool)
  | .ok () => (finishOrRemove draft file bytes >>= fun _ => Pure.pure true : Action Bool).run
  | .error .alreadyExists => (withFreeName file bytes rounds).run
  | .error fault => .done (.error fault)

/-- A name that is neither free nor taken ends a replacement. -/
theorem goOn_error {fault : Fault} (other : fault ≠ .alreadyExists) :
    goOn file bytes rounds draft (.error fault) = .done (.error fault) := by
  cases fault <;> first | rfl | contradiction

theorem run_withFreeName_succ :
    (withFreeName file bytes (rounds + 1)).run =
      .ask (I := Host) .ticket fun ticket =>
        .ask (I := Host) (.createNew (temporary file ticket))
          (goOn file bytes rounds (temporary file ticket)) := by
  refine congrArg (Program.ask (I := Host) .ticket) (funext fun ticket => ?_)
  refine congrArg (Program.ask (I := Host) (.createNew (temporary file ticket)))
    (funext fun told => ?_)
  rcases told with fault | value
  · cases fault <;> rfl
  · rfl

theorem run_within_of_parent {directory : Path} (inner : file.parent? = some directory) :
    (within rounds file bytes).run = .ask (I := Host) (.makeDirectories directory)
      (ExceptT.bindCont fun _ => withFreeName file bytes rounds) := by
  unfold within
  rw [inner]
  rfl

theorem run_within_of_top (top : file.parent? = none) :
    (within rounds file bytes).run = (withFreeName file bytes rounds).run := by
  unfold within
  rw [top]

/-! ## What is asked -/

/-- Once a temporary file was made, no name is tried. -/
theorem asks_finishOrRemove :
    Attempt.Asks (fun request : Host.Request => ∀ path, request ≠ .createNew path)
      (finishOrRemove draft file bytes) := by
  have finish : Attempt.Asks (fun request : Host.Request => ∀ path, request ≠ .createNew path)
      (finish draft file bytes) :=
    .bind ⟨nofun, fun _ => trivial⟩ fun _ =>
      .bind ⟨nofun, fun _ => trivial⟩ fun _ => ⟨nofun, fun _ => trivial⟩
  show Program.Asks _ (finishOrRemove draft file bytes).run
  rw [finishOrRemove, Attempt.run_result_bind]
  refine Program.Asks.bind finish fun told => ?_
  rcases told with fault | value
  · exact ⟨nofun, fun _ => trivial⟩
  · exact trivial

/-- Whatever is told, a replacement tries temporary names for its file only. -/
theorem asks_within :
    Attempt.Asks (fun request : Host.Request => ∀ path, request = .createNew path →
      ∃ ticket, path = temporary file ticket) (within rounds file bytes) := by
  have search (rounds : Nat) : Attempt.Asks (fun request : Host.Request =>
      ∀ path, request = .createNew path → ∃ ticket, path = temporary file ticket)
      (withFreeName file bytes rounds) := by
    induction rounds with
    | zero => trivial
    | succ rounds ih =>
      show Program.Asks _ (withFreeName file bytes (rounds + 1)).run
      rw [run_withFreeName_succ]
      refine ⟨nofun, fun ticket => ⟨?_, fun told => ?_⟩⟩
      · rintro _ ⟨⟩
        exact ⟨ticket, rfl⟩
      · rcases told with fault | value
        · by_cases taken : fault = .alreadyExists
          · subst taken
            exact ih
          · rw [goOn_error taken]
            trivial
        · refine Attempt.Asks.bind (Program.Asks.mono asks_finishOrRemove ?_) fun _ => .pure true
          exact fun _ other path same => absurd same (other path)
  show Program.Asks _ (within rounds file bytes).run
  cases inner : file.parent? with
  | none =>
    rw [run_within_of_top inner]
    exact search rounds
  | some directory =>
    rw [run_within_of_parent inner]
    refine ⟨nofun, fun told => ?_⟩
    rcases told with fault | value
    · trivial
    · exact search rounds

/-- Where no event is of a kind, there are none to count. -/
theorem countP_tries_eq_zero {events : List (Event Host)}
    (other : ∀ event ∈ events, ∀ path, event.request ≠ .createNew path) :
    events.countP Event.tries = 0 := by
  refine List.countP_eq_zero.2 fun event mem => ?_
  unfold Event.tries
  split
  · exact absurd rfl (other _ mem _)
  · exact Bool.false_ne_true

section

variable {σ : Type} (handler : Program.Handler Host σ) (state : σ)

/-- Once a name was free, what comes of its temporary file is what comes of the search. -/
theorem run_goOn_made :
    (goOn file bytes rounds draft (.ok ())).run handler state =
      (((finishOrRemove draft file bytes).run.run handler state).1.map fun _ => true,
        ((finishOrRemove draft file bytes).run.run handler state).2) := by
  refine (Program.run_bind handler (finishOrRemove draft file bytes).run
    (ExceptT.bindCont fun _ => (Pure.pure true : Action Bool)) state).trans ?_
  cases ((finishOrRemove draft file bytes).run.run handler state).1 <;> rfl

/-- Once a name was free the search tries no other, and comes to its end. -/
theorem goOn_made :
    ((goOn file bytes rounds draft (.ok ())).trace handler state).countP Event.tries = 0 ∧
      ((goOn file bytes rounds draft (.ok ())).run handler state).1 ≠ .ok false := by
  have asks : Attempt.Asks (fun request : Host.Request => ∀ path, request ≠ .createNew path)
      (finishOrRemove draft file bytes >>= fun _ => Pure.pure true : Action Bool) :=
    asks_finishOrRemove.bind fun _ => .pure true
  constructor
  · exact countP_tries_eq_zero (asks.ends (Program.transcript_trace handler _ state))
  · rw [run_goOn_made]
    cases ((finishOrRemove draft file bytes).run.run handler state).1 <;> exact nofun

end

/-! ## Following further -/

section

variable {σ : Type} (handler : Program.Handler Host σ)

/-- Who has seen the end of a search sees no other by following it further. -/
theorem run_withFreeName_of_le {further : Nat} (more : rounds ≤ further) {state : σ}
    (seen : ((withFreeName file bytes rounds).run.run handler state).1 ≠ .ok false) :
    (withFreeName file bytes further).run.run handler state =
      (withFreeName file bytes rounds).run.run handler state := by
  induction rounds generalizing further state with
  | zero => exact absurd rfl seen
  | succ rounds ih =>
    obtain ⟨further, rfl⟩ : ∃ rest, further = rest + 1 :=
      ⟨further - 1, (Nat.sub_add_cancel (Nat.one_le_of_lt more)).symm⟩
    rw [run_withFreeName_succ] at seen ⊢
    rw [run_withFreeName_succ]
    let draft := temporary file (handler .ticket state).1
    let asked := (handler .ticket state).2
    let next := (handler (.createNew draft) asked).2
    have goesOn (told : Except Fault Unit)
        (seen : ((goOn file bytes rounds draft told).run handler next).1 ≠ .ok false) :
        (goOn file bytes further draft told).run handler next =
          (goOn file bytes rounds draft told).run handler next := by
      rcases told with fault | value
      · by_cases taken : fault = .alreadyExists
        · subst taken
          exact ih (Nat.le_of_succ_le_succ more) seen
        · rw [goOn_error taken, goOn_error taken]
      · rfl
    exact goesOn (handler (.createNew draft) asked).1 seen

theorem run_within_of_le {further : Nat} (more : rounds ≤ further) {state : σ}
    (seen : ((within rounds file bytes).run.run handler state).1 ≠ .ok false) :
    (within further file bytes).run.run handler state =
      (within rounds file bytes).run.run handler state := by
  cases inner : file.parent? with
  | none =>
    rw [run_within_of_top inner] at seen ⊢
    rw [run_within_of_top inner]
    exact run_withFreeName_of_le handler more seen
  | some directory =>
    rw [run_within_of_parent inner] at seen ⊢
    rw [run_within_of_parent inner]
    let next := (handler (.makeDirectories directory) state).2
    have goesOn (told : Except Fault Unit)
        (seen : ((ExceptT.bindCont (fun _ => withFreeName file bytes rounds) told).run handler
          next).1 ≠ .ok false) :
        (ExceptT.bindCont (fun _ => withFreeName file bytes further) told).run handler next =
          (ExceptT.bindCont (fun _ => withFreeName file bytes rounds) told).run handler next := by
      rcases told with fault | value
      · rfl
      · exact run_withFreeName_of_le handler more seen
    exact goesOn (handler (.makeDirectories directory) state).1 seen

end

/-! ## The end -/

/-- How a replacement ends, by what has come of its search. -/
def settle : Except Fault Bool → Except Fault Unit
  | .ok true => .ok ()
  | .ok false => .error .endless
  | .error fault => .error fault

variable {told : Except Fault Bool}

theorem settle_eq_ok : settle told = .ok () ↔ told = .ok true := by
  rcases told with fault | _ | _ <;> simp [settle]

theorem settle_eq_error {fault : Fault} :
    settle told = .error fault ↔ told = .error fault ∨ told = .ok false ∧ fault = .endless := by
  rcases told with other | _ | _ <;> simp [settle, eq_comm]

theorem run_eq (file : Path) (bytes : List UInt8) :
    (run file bytes).run =
      (within numbers file bytes).run.bind fun told => .done (settle told) := by
  refine congrArg (Program.bind (within numbers file bytes).run) (funext fun told => ?_)
  rcases told with fault | _ | _ <;> rfl

section

variable {σ : Type} (handler : Program.Handler Host σ) (state : σ)

theorem run_run :
    (run file bytes).run.run handler state =
      (settle ((within numbers file bytes).run.run handler state).1,
        ((within numbers file bytes).run.run handler state).2) := by
  rw [run_eq]
  exact Program.run_bind handler _ _ state

theorem runFor_run (count : Nat) :
    ((run file bytes).run.runFor handler count state).2 =
      ((within numbers file bytes).run.runFor handler count state).2 := by
  rw [run_eq]
  exact Program.runFor_bind_done handler _ _ count state

end

end Replacement

end LocaleWatch
