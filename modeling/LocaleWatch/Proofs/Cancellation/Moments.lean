import LocaleWatch.Proofs.Calm
import LocaleWatch.Proofs.Cancellation.Git
import LocaleWatch.Proofs.Cancellation.Halting

/-!
# Cancelled operations

The token may become set at any moment: before an operation, or while the repository is asked,
which may be in the middle of a pull. Nothing that an operation does from then on goes further than
what it had done.

## Main results

* `cancelled_halts` — what is still done from the moment on in which the token is set.
* `cancelled_by_pull` — a refresh that is cancelled while it pulls.
-/

namespace LocaleWatch

/-- Nothing goes further once the token is set. Whatever operation is under way and wherever it is
then, all that it still asks is refused or is a removal, and of the operations that take the token
only a refresh asks for one; so each entry stays as it is or is removed, and an operation that is
refused something ends with an error that says that it was cancelled. While a query of the system's
repository is answered, no run of the version-control program is started from that moment on, and
what a run for a question printed until then is thrown away. -/
theorem cancelled_halts :
    (∀ (σ : Type) (H : Cancellable σ) (operation : Operation) (state : σ) (count : Nat),
      H.isSet (H.stopped operation.attempt count state) = true →
        let later := (H.trace operation.attempt state).drop count
        (∀ event ∈ later,
          event.IsRefusal ∨ operation.Removes ∧ event.request.IsRemoval) ∧
        (∀ category key,
          H.entries (H.after operation.attempt state) category key =
              H.entries (H.stopped operation.attempt count state) category key ∨
            operation.Removes ∧ H.entries (H.after operation.attempt state) category key = none) ∧
        ∀ event ∈ later, event.IsRefusal →
          ∃ error, H.result operation.attempt state = .error error ∧ error.IsCancelled) ∧
    ∀ (σ : Type) (H : CancellableHost σ) (repository : GitRepository) (query : Query) (state : σ)
      (count : Nat),
      let program := (repository.answer query).run
      (H.isSet (program.runFor H.handler count state).2 = true →
        ∀ event ∈ (program.trace H.handler state).drop count, ∀ command,
          event.request ≠ .git command) ∧
      ∀ command printed, query.isOrder = false →
        (program.trace H.handler state)[count]? = some (.ran command (.ok printed)) →
        H.isSet (program.runFor H.handler (count + 1) state).2 = true →
          Discarded query.operation program (program.trace H.handler state) count command printed
            (program.run H.handler state).1 := by
  constructor
  · intro σ H operation state count set later
    have halting : Halting operation.Removes later (H.result operation.attempt state) :=
      H.halts operation.heeds count set
    refine ⟨halting.kinds, fun category key => ?_, fun event => halting.error_of_refusal⟩
    have leads := Surroundings.leads_later (S := H.toSurroundings) operation.attempt count state
    by_cases removes : operation.Removes
    · have unwritten : ∀ event ∈ later,
          event.request.sparesEntries = true ∨ event.request.IsRemoval := fun event mem =>
        (halting.kinds event mem).imp Event.IsRefusal.sparesEntries And.right
      exact (Entries.leads_unwritten unwritten leads category key).imp_right fun gone =>
        ⟨removes, gone⟩
    · have spares : ∀ event ∈ later, event.request.sparesEntries = true := by
        intro event mem
        rcases halting.kinds event mem with isRefusal | ⟨may, -⟩
        · exact isRefusal.sparesEntries
        · contradiction
      exact .inl (by rw [Entries.leads_spared spares leads])
  · intro σ H repository query state count program
    refine ⟨H.no_run (repository.guarded_answer query) count, fun command printed question => ?_⟩
    exact H.discarded (repository.guarded_answer query) question

/-! ## A pull during which a refresh is cancelled -/

section

variable {σ : Type} (S : Surroundings σ) (sets : Query → Bool)

/-- What surroundings tell that are cancelled while they answer some query. -/
private def cancelledHandler : Program.Handler Tracking (σ × Bool)
  | .isCancelled, (state, set) => (set, S.next .isCancelled state, set)
  | .cancel, (state, _) => ((), S.next .cancel state, true)
  | .query query, (state, false) =>
    ((S.handler (.query query) state).1, S.next (.query query) state, sets query)
  | .query query, (state, true) => (.error (.cancelled query.operation), state, true)
  | request, (state, set) => ((S.handler request state).1, S.next request state, set)

/-- Surroundings that are cancelled while they answer some query. -/
def Surroundings.cancelledBy : Cancellable (σ × Bool) where
  handler := cancelledHandler S sets
  entries state := S.entries state.1
  answer state := S.answer state.1
  answer_of_ok {query state value} told := by
    obtain ⟨state, _ | _⟩ := state
    · exact S.answer_of_ok told
    · cases told
  entry_of_read told := S.entry_of_read told
  entries_write told := S.entries_write told
  entries_write_refused told := S.entries_write_refused told
  entries_delete told := S.entries_delete told
  entries_delete_refused told := S.entries_delete_refused told
  entries_spared {request state} spares := by
    obtain ⟨state, set⟩ := state
    cases request with
    | query query =>
      cases set with
      | false => exact S.entries_spared rfl
      | true => rfl
    | write category key bytes => cases spares
    | delete category key => cases spares
    | _ => exact S.entries_spared rfl
  isSet := Prod.snd
  looked _ := rfl
  stays request state set := by
    obtain ⟨state, _ | _⟩ := state
    · cases set
    · cases request <;> rfl
  spared request state notQuery notCancel unset := by
    cases request with
    | query query => exact absurd rfl (notQuery query)
    | cancel => exact absurd rfl notCancel
    | _ => exact unset
  refuses query state set := by
    obtain ⟨state, _ | _⟩ := state
    · cases set
    · rfl

end

/-- What a system tells on which the token gets set while the version-control program runs. -/
private def settingHandler : Program.Handler Host Bool
  | .isCancelled, set => (set, set)
  | .cancel, _ => ((), true)
  | .git _, _ => (.ok ⟨0, [], []⟩, true)
  | .kind _, set | .read _, set | .makeDirectories _, set | .createNew _, set
  | .write _ _, set | .sync _, set | .rename _ _, set | .remove _, set | .lock _ _, set =>
    (.error .notFound, set)
  | .walk _, set => (.unreadable .notFound, set)
  | .ticket, set => ((0, 0), set)
  | .workingCopy _, set => (.error .notFound, set)
  | .head _, set => (.error .notFound, set)
  | .now, set => ((0 : UInt64), set)
  | .unlock _, set | .print _, set | .notice _, set => ((), set)

/-- A system on which the token gets set while the version-control program runs. -/
def setByRun : CancellableHost Bool where
  handler := settingHandler
  isSet := id
  looked _ := rfl
  stays request state set := by cases request <;> first | rfl | exact set
  spared _ unset := unset

/-- A refresh that is cancelled while it pulls still drops the main branch, and writes nothing down;
what a run printed that was cancelled is not read. -/
theorem cancelled_by_pull :
    let H := Surroundings.onePage.cancelledBy (· = .pull)
    let start := ((false, Entries.empty.put History.mainBranchCategory "" []), false)
    let repository : GitRepository := ⟨⟨[]⟩, "origin", "main", true⟩
    H.isSet (H.stopped (Operation.call .refresh).attempt 6 start) = true ∧
      (∃ error, H.result (Operation.call .refresh).attempt start = .error error ∧
        error.IsCancelled) ∧
      H.entries (H.after (Operation.call .refresh).attempt start) History.mainBranchCategory "" =
        none ∧
      ((repository.answer .mainBranch).run.run setByRun.handler false).1 =
        .error (.cancelled "list_main_branch_commits") := by
  intro H start repository
  have set : H.isSet (H.stopped (Operation.call .refresh).attempt 6 start) = true := rfl
  have isRefusal : (Event.query .mainHead (.error (.cancelled "resolve_main_head"))).IsRefusal :=
    rfl
  have later : (H.trace (Operation.call .refresh).attempt start).drop 6 =
      [.delete History.mainBranchCategory "" (.ok ()),
        .query .mainHead (.error (.cancelled "resolve_main_head"))] := rfl
  obtain ⟨halts, discards⟩ := cancelled_halts
  obtain ⟨-, -, refused⟩ := halts _ H (.call .refresh) start 6 set
  have discarded := (discards _ setByRun repository .mainBranch false 1).2 _ ⟨0, [], []⟩ rfl rfl rfl
  exact ⟨set, refused _ (by simp [later]) isRefusal, rfl, discarded.cancelled rfl⟩

end LocaleWatch
