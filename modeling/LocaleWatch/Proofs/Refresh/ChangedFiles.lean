import LocaleWatch.Proofs.Calm
import LocaleWatch.Proofs.Refresh.Gathering

/-!
# Which files a refresh finds changed

A fresh commit affects the files it lists itself and, if it is a merge, those it brings in
from its branch. A refresh takes a commit for a merge only if it lists no file of its own; a
merge that had conflicts to solve lists the files of the solution, and then what its branch
brought in besides them is passed over.

## Main results

* `Surroundings.refresh_changed` — the changed files of a refresh, and exactly when they are
  the files that its fresh commits affect.
* `Surroundings.refresh_changed_solved` — a merge with a solved conflict, of which a file is
  passed over.
-/

namespace LocaleWatch

open History

/-- The files that fresh commits affect: those a commit lists itself, and those it brings in
as a merge. -/
def Affects (answers : Answers) (fresh : List Commit) (file : String) : Prop :=
  ∃ commit ∈ fresh,
    (∃ files, answers (.filesIn commit.id) = .ok files ∧ file ∈ files) ∨
      ∃ brought, Brings .empty answers fresh commit.id brought ∧ file ∈ brought

/-- What is kept of the main branch and of fork commits is what the repository answers, for a
main branch with the fresh commits on top. -/
structure KeptAgrees (kept : Entries) (answers : Answers) (fresh : List Commit) : Prop where
  main : ∀ commits, kept.Shows mainBranchCategory "" (some commits) →
    answers .mainBranch = .ok commits
  fork : ∀ (commit : CommitId) value, kept.Shows forkCategory commit.text (some value) →
    SeenFork .empty answers fresh commit value

section

variable {kept : Entries} {answers : Answers} {fresh : List Commit}

theorem KeptAgrees.empty : KeptAgrees .empty answers fresh where
  main commits shown := by
    obtain ⟨bytes, held, -⟩ := shown
    contradiction
  fork commit value shown := .kept shown

private theorem KeptAgrees.seenMain (agrees : KeptAgrees kept answers fresh) {commits : List Commit}
    (seen : SeenMain kept answers commits) : SeenMain .empty answers commits := by
  rcases seen with shown | ⟨-, told⟩
  · exact .inr ⟨rfl, agrees.main commits shown⟩
  · exact .inr ⟨rfl, told⟩

private theorem KeptAgrees.seenFork (agrees : KeptAgrees kept answers fresh) {commit : CommitId}
    {value : Option Commit} (seen : SeenFork kept answers fresh commit value) :
    SeenFork .empty answers fresh commit value := by
  cases seen with
  | kept shown => exact agrees.fork commit value shown
  | found absent main off told first => exact .found rfl (agrees.seenMain main) off told first

/-- With such entries a commit brings in what it brings in without any. -/
theorem KeptAgrees.brings (agrees : KeptAgrees kept answers fresh) {merge : CommitId}
    {files : List String} (brings : Brings kept answers fresh merge files) :
    Brings .empty answers fresh merge files := by
  cases brings with
  | plain told few => exact .plain told few
  | branch told main off seen differ =>
    exact .branch told (agrees.seenMain main) off (agrees.seenFork seen) differ

/-- The changed files are the affected ones exactly if every commit that lists files of its own
brings in no others than these. -/
theorem changes_iff_affects (agrees : KeptAgrees kept answers fresh)
    (looked : ∀ commit ∈ fresh, ∃ files, answers (.filesIn commit.id) = .ok files ∧
      (files = [] → ∃ brought, Brings kept answers fresh commit.id brought)) :
    (∀ file, Changes kept answers fresh file ↔ Affects answers fresh file) ↔
      ∀ commit ∈ fresh, ∀ own brought, answers (.filesIn commit.id) = .ok own → own ≠ [] →
        Brings .empty answers fresh commit.id brought →
          ∀ file ∈ brought, Changes kept answers fresh file := by
  constructor
  · intro same commit mem own brought _ _ brings file fileIn
    exact (same file).2 ⟨commit, mem, .inr ⟨brought, brings, fileIn⟩⟩
  · intro covered file
    constructor
    · intro changes
      obtain ⟨commit, mem, files, told, own | ⟨-, brought, brings, fileIn⟩⟩ := changes
      · exact ⟨commit, mem, .inl ⟨files, told, own⟩⟩
      · exact ⟨commit, mem, .inr ⟨brought, agrees.brings brings, fileIn⟩⟩
    · intro affects
      obtain ⟨commit, mem, ⟨files, told, own⟩ | ⟨brought, brings, fileIn⟩⟩ := affects
      · exact ⟨commit, mem, files, told, .inl own⟩
      · obtain ⟨files, told, merge⟩ := looked commit mem
        by_cases none : files = []
        · obtain ⟨other, brings'⟩ := merge none
          rw [brings.unique (agrees.brings brings')] at fileIn
          exact ⟨commit, mem, files, told, .inr ⟨none, other, brings', fileIn⟩⟩
        · exact covered commit mem files brought told none brings file fileIn

end

namespace Surroundings

variable {σ : Type} {S : Surroundings σ}

/-- The changed files of a refresh ascend without repetition. They are the files that the
fresh commits list themselves, and those brought in by merges that list none. If what was kept
agrees with the repository, they are the files that the fresh commits affect exactly if no
merge that lists files of its own brings in any that are not changed anyway. -/
theorem refresh_changed (steady : S.SteadyBut (·.isOrder = true) Query.IsHistory) {state : σ}
    {outcome : Refresh.Outcome} (told : S.result Refresh.run state = .ok outcome) :
    S.answer (S.next (.query .fetch) state) .freshCommits = .ok outcome.fresh ∧
    outcome.changed.Pairwise (· < ·) ∧
    (∀ file, file ∈ outcome.changed ↔
      Changes (S.entries state) (S.answer (S.next (.query .fetch) state)) outcome.fresh file) ∧
    (KeptAgrees (S.entries state) (S.answer (S.next (.query .fetch) state)) outcome.fresh →
      ((∀ file, file ∈ outcome.changed ↔
          Affects (S.answer (S.next (.query .fetch) state)) outcome.fresh file) ↔
        ∀ commit ∈ outcome.fresh, ∀ own brought,
          S.answer (S.next (.query .fetch) state) (.filesIn commit.id) = .ok own → own ≠ [] →
            Brings .empty (S.answer (S.next (.query .fetch) state)) outcome.fresh commit.id
                brought →
              ∀ file ∈ brought, file ∈ outcome.changed)) := by
  obtain ⟨-, fetched, rest⟩ := result_bind_ok (result_gather_of_run told)
  obtain ⟨fresh, freshTold, rest⟩ := result_bind_ok rest
  obtain ⟨changed, changedTold, same⟩ := result_bind_ok rest
  cases same
  rw [after_query] at freshTold
  have start : S.Gathers (S.entries state) (S.answer (S.next (.query .fetch) state)) fresh
      (S.after (Tracking.query .freshCommits) (S.after (Tracking.query .fetch) state)) := by
    rw [after_query, after_query]
    refine ⟨fun query history => steady _ _ query history ?_, ?_⟩
    · intro order isOrder isFresh
      cases isFresh
      contradiction
    · have entries : S.entries (S.next (.query .freshCommits) (S.next (.query .fetch) state)) =
          S.entries state := (S.entries_spared rfl).trans (S.entries_spared rfl)
      rw [entries]
      exact .refl
  obtain ⟨ascending, exact_, looked⟩ :=
    (keeps_run (keeps_changedFiles steady fun _ isOrder => isOrder) start).2 changed changedTold
  refine ⟨answer_of_result freshTold, ascending, exact_, fun agrees => ?_⟩
  simp only [exact_]
  exact changes_iff_affects agrees looked

/-! ### A merge with a solved conflict -/

/-- A main branch `a`, `f` and a fetched merge `m` of a branch `b` that left it at `f`. The
branch changed two files, and one of them had a conflict, which the merge solved. -/
def solvedMerge (pulled : Bool) : LocaleWatch.Answers
  | .mainBranch =>
    let main := [namedCommit ⟨"a", by decide⟩, namedCommit ⟨"f", by decide⟩]
    .ok (if pulled then namedCommit ⟨"m", by decide⟩ :: main else main)
  | .freshCommits => .ok (if pulled then [] else [namedCommit ⟨"m", by decide⟩])
  | .filesIn _ => .ok ["conflict.md"]
  | .parents _ => .ok [⟨"a", by decide⟩, ⟨"b", by decide⟩]
  | .ancestors _ => .ok [namedCommit ⟨"b", by decide⟩, namedCommit ⟨"f", by decide⟩]
  | .filesBetween _ _ => .ok ["conflict.md", "quiet.md"]
  | .mainHead => .ok (some ⟨if pulled then "m" else "a", by cases pulled <;> decide⟩)
  | .lastCommit _ => .ok none
  | .commitsAfter _ _ | .mergePoints _ => .ok []
  | .files _ => .ok []
  | .fileExists _ => .ok true
  | .fetch | .pull => .ok ()

/-- A pull moves the repository on. -/
def conflicted : Surroundings (Bool × Entries) :=
  .calm solvedMerge fun query pulled => pulled || query = .pull

private theorem conflicted_steady :
    conflicted.SteadyBut (·.isOrder = true) Query.IsHistory := by
  apply calm_steadyBut
  intro query pulled asked notOrder _
  have notPull : query ≠ .pull := by
    intro isPull
    exact notOrder (isPull ▸ rfl)
  simp [notPull]

/-- The file that had no conflict is brought in and not found changed. -/
theorem refresh_changed_solved :
    conflicted.result Refresh.run (false, .empty) =
        .ok ⟨[namedCommit ⟨"m", by decide⟩], ["conflict.md"]⟩ ∧
      Affects (solvedMerge false) [namedCommit ⟨"m", by decide⟩] "quiet.md" ∧
      ¬ ∀ file, file ∈ ["conflict.md"] ↔
        Affects (solvedMerge false) [namedCommit ⟨"m", by decide⟩] file := by
  have told : conflicted.result Refresh.run (false, .empty) =
      .ok ⟨[namedCommit ⟨"m", by decide⟩], ["conflict.md"]⟩ := rfl
  have brings : Brings .empty (solvedMerge false) [namedCommit ⟨"m", by decide⟩] ⟨"m", by decide⟩
      ["conflict.md", "quiet.md"] :=
    .branch rfl (.inr ⟨rfl, rfl⟩) rfl (.found rfl (.inr ⟨rfl, rfl⟩) rfl rfl rfl) rfl
  refine ⟨told, ⟨_, List.mem_cons_self, .inr ⟨_, brings, by simp⟩⟩, fun same => ?_⟩
  obtain ⟨-, -, -, exactly⟩ := refresh_changed conflicted_steady told
  have covered := (exactly .empty).1 same _ List.mem_cons_self _ _ rfl (by simp) brings "quiet.md"
    (by simp)
  simp at covered

end Surroundings

end LocaleWatch
