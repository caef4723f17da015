import LocaleWatch.Proofs.Calls

/-!
# Right entries about files

The entries about a file are right if they show what the repository answers, for every
spelling of the file's path. While the repository's answers about files stay as they are,
right entries stay right, whatever is asked and forgotten, and whatever is refused.

## Main results

* `Surroundings.keeps_lastCommit`, `Surroundings.keeps_commitsAfter` — with right entries,
  the two lookups give the repository's answers and leave right entries.
* `Surroundings.filesRight_sturdy` — right entries are kept by every call other than a
  refresh.
-/

namespace LocaleWatch

open History

/-- Whether a query asks about the history of one file. -/
def Query.asksFile : Query → Prop
  | .lastCommit _ | .commitsAfter _ _ => True
  | _ => False

/-- Paths with one key are answered alike. -/
structure ByKey (answers : Answers) : Prop where
  last : ∀ {path other : Path} {value : Option Commit}, path.key = other.key →
    answers (.lastCommit path) = .ok value → answers (.lastCommit other) = .ok value
  commitsAfter : ∀ {path other : Path} {start : CommitId} {commits : List Commit},
    path.key = other.key → answers (.commitsAfter path start) = .ok commits →
      answers (.commitsAfter other start) = .ok commits

/-- The entries about files show what the repository answers. -/
structure FilesRight (answers : Answers) (entries : Entries) : Prop where
  last : ∀ {path : Path} {value : Option Commit},
    entries.Shows lastCommitCategory path.key (some value) →
      answers (.lastCommit path) = .ok value
  commitsAfter : ∀ {path : Path} {starts : CommitsByStart} {start : CommitId}
    {commits : List Commit}, entries.Shows commitsAfterCategory path.key (some starts) →
      starts.get? start = some commits → answers (.commitsAfter path start) = .ok commits

namespace FilesRight

variable {answers : Answers} {entries : Entries}

theorem empty : FilesRight answers .empty where
  last shown := by
    obtain ⟨bytes, held, -⟩ := shown
    contradiction
  commitsAfter shown := by
    obtain ⟨bytes, held, -⟩ := shown
    contradiction

/-- Entries about files that were there before are right if those before were. -/
theorem of_subset {other : Entries} (right : FilesRight answers entries)
    (last : ∀ {key bytes}, other lastCommitCategory key = some bytes →
      entries lastCommitCategory key = some bytes)
    (commitsAfter : ∀ {key bytes}, other commitsAfterCategory key = some bytes →
      entries commitsAfterCategory key = some bytes) : FilesRight answers other where
  last shown := by
    obtain ⟨bytes, held, read⟩ := shown
    exact right.last ⟨bytes, last held, read⟩
  commitsAfter shown := by
    obtain ⟨bytes, held, read⟩ := shown
    exact right.commitsAfter ⟨bytes, commitsAfter held, read⟩

theorem remove (right : FilesRight answers entries) (category key : String) :
    FilesRight answers (entries.remove category key) :=
  right.of_subset Entries.of_remove Entries.of_remove

theorem put_other (right : FilesRight answers entries) {category : String}
    (notLast : lastCommitCategory ≠ category) (notAfter : commitsAfterCategory ≠ category)
    (key : String) (bytes : List UInt8) : FilesRight answers (entries.put category key bytes) :=
  right.of_subset (Entries.of_put notLast) (Entries.of_put notAfter)

theorem put_last (right : FilesRight answers entries) (byKey : ByKey answers) {path : Path}
    {value : Option Commit} (answer : answers (.lastCommit path) = .ok value) :
    FilesRight answers
      (entries.put lastCommitCategory path.key (Text.bytes (JsonForm.compact value))) where
  last {other found} shown := by
    rcases shown.put_cases with ⟨same, isValue⟩ | shown
    · cases isValue
      exact byKey.last same.symm answer
    · exact right.last shown
  commitsAfter shown := right.commitsAfter (shown.of_put (by decide))

theorem put_commitsAfter (right : FilesRight answers entries) (byKey : ByKey answers) {path : Path}
    {starts : CommitsByStart}
    (known : ∀ start commits, starts.get? start = some commits →
      answers (.commitsAfter path start) = .ok commits) :
    FilesRight answers
      (entries.put commitsAfterCategory path.key (Text.bytes (JsonForm.compact starts))) where
  last shown := right.last (shown.of_put (by decide))
  commitsAfter {other found start commits} shown kept := by
    rcases shown.put_cases with ⟨same, isValue⟩ | shown
    · cases isValue
      exact byKey.commitsAfter same.symm (known start commits kept)
    · exact right.commitsAfter shown kept

end FilesRight

namespace Surroundings

variable {σ : Type} {S : Surroundings σ} {orders : Query → Prop} {answers : LocaleWatch.Answers}

/-- The repository answers about files in one way, and the entries about files are right. -/
abbrev FilesHold (S : Surroundings σ) (answers : LocaleWatch.Answers) : σ → Prop :=
  S.Holding Query.asksFile answers (FilesRight answers)

/-- Writes to other categories leave the entries about files right. -/
theorem filesHold_admits (steady : S.SteadyBut orders Query.asksFile) {category : String}
    (notLast : lastCommitCategory ≠ category)
    (notAfter : commitsAfterCategory ≠ category) : S.Admits (S.FilesHold answers) category :=
  fun holds => holds.write steady fun right => right.put_other notLast notAfter _ _

section

variable (steady : S.SteadyBut orders Query.asksFile)
  (onlyOrders : ∀ query, orders query → query.isOrder = true)
include steady onlyOrders

/-- With right entries, the last commit of a file is the repository's. -/
theorem keeps_lastCommit (byKey : ByKey answers) (path : Path) :
    Attempt.Keeps S.handler (S.FilesHold answers) (History.lastCommit path) fun value =>
      answers (.lastCommit path) = .ok value := by
  have quiet : S.Undisturbed (S.FilesHold answers) := holding_undisturbed steady onlyOrders
  refine keeps_get quiet (fun holds shown => holds.entries.last shown) (fun _ => ?_)
    fun _ found => found
  apply (keeps_question quiet rfl).mono
  intro value known
  obtain ⟨state, holds, answer⟩ := known
  have told : answers (.lastCommit path) = .ok value := by
    rw [← answer, holds.answers (.lastCommit path) trivial]
  exact ⟨told, fun holds => holds.write steady fun right => right.put_last byKey told⟩

/-- With right entries, the commits of a file after a commit are the repository's. -/
theorem keeps_commitsAfter (byKey : ByKey answers) (path : Path) (start : CommitId) :
    Attempt.Keeps S.handler (S.FilesHold answers) (History.commitsAfter path start) fun commits =>
      answers (.commitsAfter path start) = .ok commits := by
  have quiet : S.Undisturbed (S.FilesHold answers) := holding_undisturbed steady onlyOrders
  apply keeps_startsLookup quiet fun other commits =>
    answers (.commitsAfter path other) = .ok commits
  · intro state starts other commits holds shown held
    exact holds.entries.commitsAfter shown held
  · intro state commits holds answer
    rw [← answer, holds.answers (.commitsAfter path start) trivial]
  · intro state starts holds known
    exact holds.write steady fun right => right.put_commitsAfter byKey known

/-- Right entries are kept by every call other than a refresh. -/
theorem filesRight_sturdy (byKey : ByKey answers) : S.Sturdy (S.FilesHold answers) := by
  have quiet : S.Undisturbed (S.FilesHold answers) := holding_undisturbed steady onlyOrders
  have admits {category : String} (notLast : lastCommitCategory ≠ category)
      (notAfter : commitsAfterCategory ≠ category) : S.Admits (S.FilesHold answers) category :=
    filesHold_admits steady notLast notAfter
  refine
    { quiet := quiet
      removal := fun holds => holds.delete steady fun right => right.remove _ _
      fork := admits (by decide) (by decide)
      merge := admits (by decide) (by decide)
      main := ?_
      last := fun path => (keeps_lastCommit steady onlyOrders byKey path).mono fun _ _ => trivial
      commitsAfter := fun path start =>
        (keeps_commitsAfter steady onlyOrders byKey path start).mono fun _ _ => trivial }
  have lookup : Attempt.Keeps S.handler (S.FilesHold answers)
      (Cache.get mainBranchCategory "" (Tracking.query .mainBranch)) fun _ => True :=
    keeps_lookup quiet (admits (by decide) (by decide)) (keeps_asked quiet rfl)
  exact lookup.andThen fun commits => .pure trivial

end

end Surroundings

end LocaleWatch
