import LocaleWatch.Proofs.Cache.Keyed

/-!
# Calm surroundings

Among calm surroundings the run is never cancelled and the store refuses nothing, so what
comes of an attempt is settled by the repository's answers and by what the store holds. The
answers go through stages: an order that is carried out leads to the next one.

## Main results

* `Surroundings.calm_steadyBut` — the answers stay the same but for orders that move them.
* `Surroundings.calm_result_query`, `Surroundings.calm_after_question` — what a question gives and
  leaves.
-/

namespace LocaleWatch

namespace Surroundings

/-- The stage after a query: it is left only by an order that is carried out. -/
def stageAfter {τ : Type} (answers : τ → LocaleWatch.Answers) (moves : Query → τ → τ)
    (query : Query) (stage : τ) : τ :=
  match answers stage query with
  | .ok _ => moves query stage
  | .error _ => stage

/-- What calm surroundings tell at a request. -/
private def calmHandler {τ : Type} (answers : τ → LocaleWatch.Answers) (moves : Query → τ → τ) :
    Program.Handler Tracking (τ × Entries)
  | .isCancelled, state => (false, state)
  | .cancel, state => ((), state)
  | .query query, (stage, entries) =>
    (answers stage query, stageAfter answers moves query stage, entries)
  | .read category key, (stage, entries) => (.ok (entries category key), stage, entries)
  | .write category key bytes, (stage, entries) => (.ok (), stage, entries.put category key bytes)
  | .delete category key, (stage, entries) => (.ok (), stage, entries.remove category key)
  | .holds category key, (stage, entries) => (.ok (entries category key).isSome, stage, entries)

/-- Surroundings in which the repository answers by stages and nothing else is refused. -/
def calm {τ : Type} (answers : τ → LocaleWatch.Answers) (moves : Query → τ → τ) :
    Surroundings (τ × Entries) where
  handler := calmHandler answers moves
  entries := Prod.snd
  answer state := answers state.1
  answer_of_ok told := told
  entry_of_read told := Except.ok.inj told
  entries_write _ := rfl
  entries_write_refused told := nomatch told
  entries_delete _ := rfl
  entries_delete_refused told := nomatch told
  entries_spared {request state} spares := by
    cases request with
    | write category key bytes => cases spares
    | delete category key => cases spares
    | _ => rfl

variable {τ : Type} {answers : τ → LocaleWatch.Answers} {moves : Query → τ → τ}

/-- The answers stay the same but for orders that move them. -/
theorem calm_steadyBut {orders concern : Query → Prop}
    (still : ∀ query stage asked, ¬ orders query → concern asked →
      answers (moves query stage) asked = answers stage asked) :
    (calm answers moves).SteadyBut orders concern := by
  intro request state asked concerned idle
  cases request with
  | query query =>
    show answers (stageAfter answers moves query state.1) asked = answers state.1 asked
    unfold stageAfter
    cases told : answers state.1 query with
    | error error => rfl
    | ok value =>
      refine still query state.1 asked (fun isOrder => ?_) concerned
      exact idle query isOrder rfl ⟨value, told⟩
  | _ => rfl

/-! ## Results -/

variable {α : Type} [JsonForm α] (stage : τ) (entries : Entries) (category key : String)

@[simp] theorem calm_result_query (query : Query) :
    (calm answers moves).result (Tracking.query query) (stage, entries) =
      (answers stage query).mapError .repository :=
  result_mapError _ _ _

theorem calm_after_query (query : Query) :
    (calm answers moves).after (Tracking.query query) (stage, entries) =
      (stageAfter answers moves query stage, entries) :=
  after_mapError _ _ _

/-- A question leaves calm surroundings as they are. -/
theorem calm_after_question (query : Query) (still : moves query stage = stage) :
    (calm answers moves).after (Tracking.query query) (stage, entries) = (stage, entries) := by
  rw [calm_after_query, stageAfter, still]
  cases answers stage query <;> rfl

/-! ## Repositories that a pull moves on -/

/-- Surroundings in which the repository's answers change once, with the first pull. -/
def pulling (answers : Bool → LocaleWatch.Answers) : Surroundings (Bool × Entries) :=
  .calm answers fun query pulled => pulled || query = .pull

theorem pulling_steadyBut {answers : Bool → LocaleWatch.Answers} {orders concern : Query → Prop}
    (pull : orders .pull) : (pulling answers).SteadyBut orders concern := by
  apply calm_steadyBut
  intro query pulled asked notOrder _
  have notPull : query ≠ .pull := by
    intro isPull
    exact notOrder (isPull ▸ pull)
  simp [notPull]

/-! ## Commits of a repository with a branch -/

/-- A commit of this name. -/
def namedCommit (id : CommitId) : Commit := ⟨id, "2024-05-03T10:00:00+00:00", id.text⟩

/-- Where a branch left the main branch. -/
def baseCommit : Commit := namedCommit ⟨"m1", by decide⟩

/-- A commit of that branch. -/
def nextCommit : Commit := namedCommit ⟨"s1", by decide⟩

/-- The last commit of that branch. -/
def branchCommit : Commit := namedCommit ⟨"s2", by decide⟩

/-- The commit that merged it. -/
def mergeCommit : Commit := namedCommit ⟨"m2", by decide⟩

/-! ## A repository with one file -/

/-- The last commit of the file before the pull. -/
def oldCommit : Commit := ⟨⟨"c1", by decide⟩, "2024-05-01T10:00:00+00:00", "write the page"⟩

/-- The commit that is fetched. -/
def newCommit : Commit := ⟨⟨"c2", by decide⟩, "2024-05-02T10:00:00+00:00", "mend the page"⟩

/-- A repository with one file, which a fetched commit changes. -/
def oneFile (pulled : Bool) : LocaleWatch.Answers
  | .lastCommit path =>
    .ok (if path.key = "page" then some (if pulled then newCommit else oldCommit) else none)
  | .commitsAfter _ _ | .ancestors _ | .mergePoints _ => .ok []
  | .freshCommits => .ok (if pulled then [] else [newCommit])
  | .mainBranch => .ok (if pulled then [newCommit, oldCommit] else [oldCommit])
  | .mainHead => .ok (some (if pulled then newCommit.id else oldCommit.id))
  | .filesIn _ => .ok ["page"]
  | .files _ | .filesBetween _ _ | .parents _ => .ok []
  | .fileExists path => .ok (path.key = "page")
  | .fetch | .pull => .ok ()

/-- A pull moves the repository on. -/
def onePage : Surroundings (Bool × Entries) :=
  .calm oneFile fun query pulled => pulled || query = .pull

theorem onePage_steadyBut {orders concern : Query → Prop} (pull : orders .pull) :
    onePage.SteadyBut orders concern :=
  pulling_steadyBut pull

end Surroundings

end LocaleWatch
