import LocaleWatch.Proofs.History.Coherence
import LocaleWatch.Proofs.History.MainBranch

/-!
# Fork and merge commits in settled surroundings

Where nothing is refused and the kept main branch is right, a lookup of a fork or a merge commit
is settled by the entry of that commit alone: what is shown is given, unless it says that no
merge was found, and what is missing is computed.

## Main results

* `MainRight.lookedUp_fork_shown`, `MainRight.lookedUp_fork_missing` — fork commits.
* `MainRight.lookedUp_merge_shown`, `MainRight.lookedUp_merge_missing` — merge commits.
-/

namespace LocaleWatch

open History

/-- Where nothing was kept beforehand, the main branch that is kept is right. -/
theorem MainSeen.mainRight {answers : Answers} {entries : Entries}
    (seen : MainSeen .empty answers entries) : MainRight answers entries := by
  intro bytes held
  rcases seen.held held with before | ⟨-, commits, written, told⟩
  · contradiction
  · refine ⟨commits, ?_, told⟩
    rw [written]
    exact JsonForm.decode_compact commits

namespace MainRight

variable {answers : Answers} {entries : Entries} {main : MainBranch} {commit : CommitId}

variable (right : MainRight answers entries) (told : answers .mainBranch = .ok main.commits)
include right told

/-! ## Fork commits -/

theorem lookedUp_fork_on (on : main.contains commit = true) :
    lookedUp answers (History.fork commit) entries = .ok none := by
  unfold History.fork
  rw [right.lookedUp_withMain told, forkWithin, on]
  rfl

/-- The fork commit that is kept is given. -/
theorem lookedUp_fork_shown (off : main.contains commit = false) {value : Option Commit}
    (shown : entries.Shows forkCategory commit.text (some value)) :
    lookedUp answers (History.fork commit) entries = .ok value := by
  have still : (leftBy answers mainBranch entries).Shows forkCategory commit.text (some value) :=
    shown.congr (right.leftBy_mainBranch (by decide) _)
  unfold History.fork
  rw [right.lookedUp_withMain told, forkWithin_off off]
  exact (getUnless_shown answers _ still rfl).1

theorem lookedUp_fork_missing (off : main.contains commit = false)
    (absent : entries forkCategory commit.text = none) :
    lookedUp answers (History.fork commit) entries = computed answers (findFork main commit) := by
  have missing : Entries.Shows (leftBy answers mainBranch entries) forkCategory commit.text
      (none : Option (Option Commit)) :=
    (right.leftBy_mainBranch (by decide) _).trans absent
  have asks : AsksOnly answers (findFork main commit) := findFork_asksOnly
  unfold History.fork
  rw [right.lookedUp_withMain told, forkWithin_off off]
  exact (getUnless_missing missing nofun (asks _).2).1.trans (asks _).1

/-! ## Merge commits -/

theorem lookedUp_merge_on (on : main.contains commit = true) :
    lookedUp answers (History.merge commit) entries = .ok none := by
  unfold History.merge
  rw [right.lookedUp_withMain told, mergeWithin, on]
  rfl

/-- A merge commit that is kept is given. -/
theorem lookedUp_merge_shown (off : main.contains commit = false) {merge : Commit}
    (shown : entries.Shows mergeCategory commit.text (some (some merge))) :
    lookedUp answers (History.merge commit) entries = .ok (some merge) := by
  have still : (leftBy answers mainBranch entries).Shows mergeCategory commit.text
      (some (some merge)) :=
    shown.congr (right.leftBy_mainBranch (by decide) _)
  unfold History.merge
  rw [right.lookedUp_withMain told, mergeWithin_off off]
  exact (getUnless_shown answers _ still rfl).1

/-- Where no merge is kept, or that there was none, the merge commit is computed. -/
theorem lookedUp_merge_missing (off : main.contains commit = false)
    {found : Option (Option Commit)} (shown : entries.Shows mergeCategory commit.text found)
    (none : ∀ value, found = some value → value = none) :
    lookedUp answers (History.merge commit) entries = computed answers (findMerge main commit) := by
  have still : (leftBy answers mainBranch entries).Shows mergeCategory commit.text found :=
    shown.congr (right.leftBy_mainBranch (by decide) _)
  have asks : AsksOnly answers (findMerge main commit) := findMerge_asksOnly
  have invalid : ∀ value, found = some value → Option.isNone value = true := by
    intro value same
    rw [none value same]
    rfl
  unfold History.merge
  rw [right.lookedUp_withMain told, mergeWithin_off off]
  exact (getUnless_missing still invalid (asks _).2).1.trans (asks _).1

end MainRight

end LocaleWatch
