import LocaleWatch.Proofs.History.MainBranch
import LocaleWatch.Proofs.Staleness.Direct

/-!
# Updates that a localized file contains

The updates of a localized file are the commits to the origin file after its fork commit, or after
its last commit if this is on the main branch. So they are none that this start point contains.
On the main branch that rules out everything that the localized file can have seen. On a branch it
does not: what was committed there after the fork is listed, even if it was committed before the
localized file or together with it.

## Main results

* `Surroundings.keeps_checkFile` — the updates are commits after the start point, whatever is kept.
* `Facts.merged_lists_last` — an update that is the last commit of the localized file itself.
* `Surroundings.updates_contained` — an update that the localized file contains is a commit of its
  own branch.
-/

namespace LocaleWatch

open History Surroundings

/-- A commit that a start point contains, as far as lists of ancestors tell: itself, one that is
listed for it, or one that comes after it in any list. -/
inductive Contained (answers : Answers) (start : CommitId) : CommitId → Prop where
  | self : Contained answers start start
  | listed {chain : List Commit} {commit : Commit} (told : answers (.ancestors start) = .ok chain)
    (mem : commit ∈ chain) : Contained answers start commit.id
  | below {tip : CommitId} {newer older : List Commit} {first commit : Commit}
    (told : answers (.ancestors tip) = .ok (newer ++ first :: older)) (same : first.id = start)
    (mem : commit ∈ older) : Contained answers start commit.id

/-- The commits after a start point are none that it contains. -/
def ListsLater (answers : Answers) : Prop :=
  ∀ path start commits commit, answers (.commitsAfter path start) = .ok commits →
    commit ∈ commits → ¬ Contained answers start commit.id

/-- How a file was compared: its fork commit is the one on the main branch, and its updates are
commits after the start point. -/
structure Compared (answers : Answers) (main : List Commit) (file : LocalizedFile) : Prop where
  fork : ∀ last, file.lastCommit = some last →
    OffMain ⟨main⟩ last.id (ForkBefore answers main [] last.id) file.fork
  updates : ∀ last, file.lastCommit = some last → ∀ update ∈ file.updates, ∃ origin commits,
    answers (.commitsAfter origin (file.fork.getD last).id) = .ok commits ∧
      update.commit ∈ commits

/-! ## The store during a check -/

/-- What the store holds during a check that started without anything kept, beside the main
branch. -/
structure Checked (answers : Answers) (entries : Entries) : Prop where
  forks : ForksSince answers [] (fun _ => []) entries
  starts : ∀ {key starts start commits}, entries.Shows commitsAfterCategory key (some starts) →
    CommitsByStart.get? starts start = some commits →
      ∃ path, answers (.commitsAfter path start) = .ok commits

namespace Checked

variable {answers : Answers} {entries : Entries}

theorem empty : Checked answers .empty where
  forks := .empty
  starts shown := by
    obtain ⟨bytes, held, -⟩ := shown
    contradiction

theorem put_other (checked : Checked answers entries) {category : String}
    (fork : forkCategory ≠ category) (starts : commitsAfterCategory ≠ category) (key : String)
    (bytes : List UInt8) : Checked answers (entries.put category key bytes) where
  forks := checked.forks.congr fun _ => Entries.put_of_category fork
  starts shown := checked.starts (shown.of_put starts)

theorem put_fork (checked : Checked answers entries) {key : String} {bytes : List UInt8}
    (forks : ForksSince answers [] (fun _ => []) (entries.put forkCategory key bytes)) :
    Checked answers (entries.put forkCategory key bytes) where
  forks := forks
  starts shown := checked.starts (shown.of_put (by decide))

theorem put_starts (checked : Checked answers entries) {key : String} {starts : CommitsByStart}
    (known : ∀ start commits, starts.get? start = some commits →
      ∃ path, answers (.commitsAfter path start) = .ok commits) :
    Checked answers
      (entries.put commitsAfterCategory key (Text.bytes (JsonForm.compact starts))) where
  forks := checked.forks.congr fun _ => Entries.put_of_category (by decide)
  starts {other found start commits} shown kept := by
    rcases shown.put_cases with ⟨-, isValue⟩ | shown
    · cases isValue
      exact known start commits kept
    · exact checked.starts shown kept

end Checked

/-! ## A check -/

namespace Surroundings

variable {σ : Type} {S : Surroundings σ} {answers : LocaleWatch.Answers} {main : List Commit}

/-- The repository's answers stay as they are, and the store holds what a check has kept. -/
abbrev Checks (S : Surroundings σ) (answers : LocaleWatch.Answers) : σ → Prop :=
  S.MainHolds (·.isOrder = false) answers (Checked answers)

section

variable (steady : S.SteadyBut (·.isOrder = true) (·.isOrder = false))
include steady

private theorem checks_quiet : S.Undisturbed (S.Checks answers) :=
  holding_undisturbed steady fun _ isOrder => isOrder

private theorem checks_admits {category : String} (main : mainBranchCategory ≠ category)
    (fork : forkCategory ≠ category) (starts : commitsAfterCategory ≠ category) :
    S.Admits (S.Checks answers) category :=
  fun holds => mainHolds_put steady main (fun checked => checked.put_other fork starts _ _) holds

/-- The commits after a start point are given as the repository gives them for some path: the same
entry serves all paths with one key. -/
theorem keeps_checkedStarts (path : Path) (start : CommitId) :
    Attempt.Keeps S.handler (S.Checks answers) (commitsAfter path start) fun commits =>
      ∃ other, answers (.commitsAfter other start) = .ok commits := by
  apply keeps_startsLookup (checks_quiet steady) fun start commits =>
    ∃ other, answers (.commitsAfter other start) = .ok commits
  · intro state starts other commits holds shown held
    exact holds.entries.2.starts shown held
  · intro state commits holds told
    exact ⟨path, (holds.answers (.commitsAfter path start) rfl).symm.trans told⟩
  · intro state starts holds known
    exact mainHolds_put steady (by decide) (fun checked => checked.put_starts known) holds

theorem keeps_checkedUpdates (origin : Path) (start : CommitId) :
    Attempt.Keeps S.handler (S.Checks answers) (Staleness.updates ⟨main⟩ origin start)
      fun updates => ∀ update ∈ updates, ∃ path commits,
        answers (.commitsAfter path start) = .ok commits ∧ update.commit ∈ commits := by
  have merge (commit : Commit) : Attempt.Keeps S.handler (S.Checks answers)
      (mergeWithin ⟨main⟩ commit.id >>= fun merge => pure (OriginUpdate.mk commit merge))
      fun update => update.commit = commit := by
    have admits : S.Admits (S.Checks answers) mergeCategory :=
      checks_admits steady (by decide) (by decide) (by decide)
    exact (keeps_mergeLookup (checks_quiet steady) admits ⟨main⟩ commit.id).andThen fun _ =>
      .pure rfl
  apply (keeps_checkedStarts steady origin start).bind
  intro commits known
  obtain ⟨path, told⟩ := known
  refine (Attempt.Keeps.mapM fun commit _ => merge commit).mono fun updates found update mem => ?_
  obtain ⟨commit, isIn, same⟩ := found.2 update mem
  exact ⟨path, commits, told, same ▸ isIn⟩

/-- The fork commit of a file is the one on the main branch, and its updates are commits after the
start point, whatever the files before it have left in the store. -/
theorem keeps_checkFile (told : answers .mainBranch = .ok main) (layout : Layout)
    (language path : String) :
    Attempt.Keeps S.handler (S.Checks answers) (Staleness.checkFile layout ⟨main⟩ language path)
      (Compared answers main) := by
  have quiet : S.Undisturbed (S.Checks answers) := checks_quiet steady
  have last : Attempt.Keeps S.handler (S.Checks answers)
      (lastCommit (layout.file language path)) fun _ => True :=
    keeps_lookup quiet (checks_admits steady (by decide) (by decide) (by decide))
      (keeps_asked quiet rfl)
  unfold Staleness.checkFile
  apply last.andThen
  intro last
  cases last with
  | none =>
    apply (keeps_asked quiet rfl).andThen
    intro originExists
    cases originExists <;> exact .pure ⟨nofun, nofun⟩
  | some last =>
    have fork : Attempt.Keeps S.handler (S.Checks answers) (forkWithin ⟨main⟩ last.id)
        (OffMain ⟨main⟩ last.id (ForkBefore answers main [] last.id)) :=
      keeps_forkSince steady (fun _ isOrder => isOrder) [] (fun _ => []) rfl told
        (fun both => both.2.forks) fun both forks =>
          ⟨both.1.congr (Entries.put_of_category (by decide)), both.2.put_fork forks⟩
    have admits : S.Admits (S.Checks answers) mergeCategory :=
      checks_admits steady (by decide) (by decide) (by decide)
    apply fork.bind
    intro fork off
    apply (keeps_mergeLookup quiet admits ⟨main⟩ last.id).andThen
    intro merge
    apply (keeps_asked quiet rfl).andThen
    intro originExists
    cases originExists with
    | false =>
      refine .pure ⟨fun other same => ?_, nofun⟩
      cases same
      exact off
    | true =>
      apply (keeps_checkedUpdates steady _ (fork.getD last).id).bind
      intro updates later
      refine .pure ⟨fun other same => ?_, fun other same => ?_⟩
      · cases same
        exact off
      · cases same
        exact later

theorem keeps_checkFiles (layout : Layout) (language : String) (paths : List String) :
    Attempt.Keeps S.handler (S.Checks answers) (Staleness.checkFiles layout language paths)
      fun files => ∃ main, answers .mainBranch = .ok main ∧
        ∀ file ∈ files, Compared answers main file := by
  have main : Attempt.Keeps S.handler (S.Checks answers) mainBranch fun main =>
      answers .mainBranch = .ok main.commits :=
    keeps_mainHeld steady (fun _ isOrder => isOrder) rfl
      fun _ _ checked => checked.put_other (by decide) (by decide) _ _
  apply main.bind
  intro main told
  refine (Attempt.Keeps.mapM fun path _ =>
    keeps_checkFile steady told layout language path).mono fun files found => ?_
  refine ⟨main.commits, told, fun file mem => ?_⟩
  obtain ⟨path, -, compared⟩ := found.2 file mem
  exact compared

end

end Surroundings

/-! ## What a compared file contains -/

section

variable {answers : Answers} {main : List Commit} {file : LocalizedFile} {last : Commit}
  {update : OriginUpdate} (later : ListsLater answers) (compared : Compared answers main file)
  (committed : file.lastCommit = some last) (mem : update ∈ file.updates)
include later compared committed mem

/-- An update is no commit that the start point contains. -/
theorem Compared.not_contained :
    ¬ Contained answers (file.fork.getD last).id update.commit.id := by
  obtain ⟨origin, commits, told, isIn⟩ := compared.updates last committed update mem
  exact later origin _ commits update.commit told isIn

/-- On the main branch an update is no commit that the localized file contains. -/
theorem Compared.on_main (on : (MainBranch.mk main).contains last.id = true) :
    ¬ Contained answers last.id update.commit.id := by
  have start := compared.not_contained later committed mem
  rw [(compared.fork last committed).of_on on] at start
  exact start

/-- On a branch an update is neither the fork commit nor one of its ancestors. -/
theorem Compared.off_main (off : (MainBranch.mk main).contains last.id = false) :
    ∃ own fork older, file.fork = some fork ∧
      answers (.ancestors last.id) = .ok (own ++ fork :: older) ∧
      (MainBranch.mk main).contains fork.id = true ∧
      (∀ commit ∈ own, (MainBranch.mk main).contains commit.id = false) ∧
      ∀ commit ∈ fork :: older, commit.id ≠ update.commit.id := by
  have start := compared.not_contained later committed mem
  obtain ⟨older, fork, split, ⟨chain, told, first⟩, isFork⟩ :=
    (compared.fork last committed).of_off off
  cases split
  rw [isFork] at start
  obtain ⟨onMain, own, rest, rfl, notOn⟩ := List.find?_eq_some_iff_append.1 first
  refine ⟨own, fork, rest, isFork, told, onMain, ?_, ?_⟩
  · intro commit mem
    simpa using notOn commit mem
  · intro commit mem same
    apply start
    rw [← same]
    rcases List.mem_cons.1 mem with rfl | mem
    · exact .self
    · exact .below told rfl mem

end

namespace Facts

/-- In no list of ancestors anything comes after `baseCommit`. -/
private theorem merged_base_last {tip : CommitId} {newer older : List Commit} {first : Commit}
    (told : merged.answers (.ancestors tip) = .ok (newer ++ first :: older))
    (isBase : first.id = baseCommit.id) : older = [] := by
  have chain : (if tip = baseCommit.id then [baseCommit] else [namedCommit tip, baseCommit]) =
      newer ++ first :: older := Except.ok.inj told
  by_cases same : tip = baseCommit.id
  · rw [if_pos same] at chain
    have length := congrArg List.length chain
    simp only [List.length_append, List.length_cons, List.length_nil] at length
    exact List.eq_nil_of_length_eq_zero (by omega)
  · rw [if_neg same] at chain
    cases newer with
    | nil =>
      have isTip : namedCommit tip = first := (List.cons.inj chain).1
      rw [← isTip] at isBase
      contradiction
    | cons head more =>
      have length := congrArg List.length chain
      simp only [List.length_append, List.length_cons, List.length_nil] at length
      exact List.eq_nil_of_length_eq_zero (by omega)

private theorem merged_listsLater : ListsLater merged.answers := by
  intro path start commits commit told mem contained
  have listed : (if start = baseCommit.id then [branchCommit, mergeCommit] else []) = commits :=
    Except.ok.inj told
  by_cases isBase : start = baseCommit.id
  · rw [if_pos isBase] at listed
    have notBase : commit.id ≠ baseCommit.id := by
      rw [← listed] at mem
      rcases List.mem_cons.1 mem with rfl | mem
      · decide
      · rw [List.mem_singleton.1 mem]
        decide
    generalize commit.id = name at contained notBase
    cases contained with
    | self => exact notBase isBase
    | listed asked isIn =>
      have chain :
          (if start = baseCommit.id then [baseCommit] else [namedCommit start, baseCommit]) = _ :=
        Except.ok.inj asked
      rw [if_pos isBase] at chain
      rw [← chain] at isIn
      exact notBase (congrArg Commit.id (List.mem_singleton.1 isIn))
    | below asked same isIn =>
      rw [merged_base_last asked (same.trans isBase)] at isIn
      contradiction
  · rw [if_neg isBase] at listed
    rw [← listed] at mem
    contradiction

/-- A localized file that was committed on a branch together with a change to the origin file lacks
this change, as the check has it: the update is the last commit of the file itself. -/
theorem merged_lists_last :
    ¬ ∀ (answers : Answers), ListsLater answers → ∀ layout language paths files,
      lookedUp answers (Staleness.checkFiles layout language paths) .empty = .ok files →
        ∀ file ∈ files, ∀ last, file.lastCommit = some last → ∀ update ∈ file.updates,
          update.commit.id ≠ last.id ∧ ∀ chain, answers (.ancestors last.id) = .ok chain →
            ∀ ancestor ∈ chain, ancestor.id ≠ update.commit.id := by
  intro claim
  have told : lookedUp merged.answers (Staleness.checkFiles .standard "de" ["page"]) .empty =
      .ok [mergedPage] := rfl
  have distinct := claim merged.answers merged_listsLater .standard "de" ["page"] _ told _
    List.mem_cons_self branchCommit rfl ⟨branchCommit, some mergeCommit⟩ List.mem_cons_self
  exact distinct.1 rfl

end Facts

namespace Surroundings

variable {σ : Type} {S : Surroundings σ}

/-- Of what a check without anything kept says, no update is a commit that a localized file on the
main branch contains. Of a localized file on a branch it is neither the fork commit nor one of its
ancestors, so if the file contains it, it is a commit of the branch itself. -/
theorem updates_contained (steady : S.SteadyBut (·.isOrder = true) (·.isOrder = false)) {state : σ}
    (later : ListsLater (S.answer state)) (clear : S.entries state = .empty) (layout : Layout)
    (language : String) {files : List LocalizedFile}
    (told : (∃ paths, S.result (Staleness.checkFiles layout language paths) state = .ok files) ∨
      S.result (Staleness.checkLanguage layout language) state = .ok files) :
    ∃ main, S.answer state .mainBranch = .ok main ∧
      ∀ file ∈ files, ∀ last, file.lastCommit = some last → ∀ update ∈ file.updates,
        ((MainBranch.mk main).contains last.id = true →
          update.commit.id ≠ last.id ∧ ∀ chain, S.answer state (.ancestors last.id) = .ok chain →
            ∀ ancestor ∈ chain, ancestor.id ≠ update.commit.id) ∧
        ((MainBranch.mk main).contains last.id = false →
          ∃ own fork older, file.fork = some fork ∧
            S.answer state (.ancestors last.id) = .ok (own ++ fork :: older) ∧
            (MainBranch.mk main).contains fork.id = true ∧
            (∀ commit ∈ own, (MainBranch.mk main).contains commit.id = false) ∧
            ∀ commit ∈ fork :: older, commit.id ≠ update.commit.id) := by
  have started : S.Checks (S.answer state) state := by
    refine ⟨fun _ _ => rfl, ?_⟩
    rw [clear]
    exact ⟨.refl, .empty⟩
  have checked (paths : List String) : Attempt.Keeps S.handler (S.Checks (S.answer state))
      (Staleness.checkFiles layout language paths) fun files =>
        ∃ main, S.answer state .mainBranch = .ok main ∧
          ∀ file ∈ files, Compared (S.answer state) main file :=
    keeps_checkFiles steady layout language paths
  have compared : ∃ main, S.answer state .mainBranch = .ok main ∧
      ∀ file ∈ files, Compared (S.answer state) main file := by
    rcases told with ⟨paths, told⟩ | told
    · exact (keeps_run (checked paths) started).2 files told
    · have checkedAll : Attempt.Keeps S.handler (S.Checks (S.answer state))
          (Staleness.checkLanguage layout language) fun files =>
            ∃ main, S.answer state .mainBranch = .ok main ∧
              ∀ file ∈ files, Compared (S.answer state) main file :=
        (keeps_asked (checks_quiet steady) rfl).andThen fun paths => checked paths
      exact (keeps_run checkedAll started).2 files told
  obtain ⟨main, toldMain, compared⟩ := compared
  refine ⟨main, toldMain, fun file mem last committed update isUpdate => ?_⟩
  refine ⟨fun on => ?_, fun off => ?_⟩
  · have start := (compared file mem).on_main later committed isUpdate on
    refine ⟨fun same => ?_, fun chain told ancestor mem same => ?_⟩
    · apply start
      rw [same]
      exact .self
    · apply start
      rw [← same]
      exact .listed told mem
  · exact (compared file mem).off_main later committed isUpdate off

/-- The state of a page on the main branch. -/
def mergedIndex : LocalizedFile where
  path := "index"
  lastCommit := some baseCommit
  fork := none
  merge := none
  status := .modified
  updates := [⟨branchCommit, some mergeCommit⟩, ⟨mergeCommit, none⟩]

/-- On the branch as on the main branch, `baseCommit` is no update. -/
theorem updates_contained_merged :
    lookedUp Facts.merged.answers (Staleness.checkFiles .standard "de" ["page", "index"]) .empty =
        .ok [Facts.mergedPage, mergedIndex] ∧
      (∀ update ∈ Facts.mergedPage.updates, baseCommit.id ≠ update.commit.id) ∧
      ∀ update ∈ mergedIndex.updates, update.commit.id ≠ baseCommit.id := by
  have steady : (settled Facts.merged.answers).SteadyBut (·.isOrder = true) (·.isOrder = false) :=
    calm_steadyBut fun _ _ _ _ _ => rfl
  have told : lookedUp Facts.merged.answers
      (Staleness.checkFiles .standard "de" ["page", "index"]) .empty =
        .ok [Facts.mergedPage, mergedIndex] := rfl
  have clear : (settled Facts.merged.answers).entries ((), .empty) = .empty := rfl
  obtain ⟨main, toldMain, contained⟩ :=
    updates_contained steady Facts.merged_listsLater clear .standard "de" (.inl ⟨_, told⟩)
  cases toldMain
  refine ⟨told, fun update mem => ?_, fun update mem => ?_⟩
  · obtain ⟨own, fork, older, isFork, -, -, -, notIn⟩ :=
      (contained _ List.mem_cons_self branchCommit rfl update mem).2 rfl
    cases isFork
    exact notIn baseCommit List.mem_cons_self
  · have isIn := List.mem_cons_of_mem Facts.mergedPage (List.mem_singleton_self mergedIndex)
    exact ((contained _ isIn baseCommit rfl update mem).1 rfl).1

end Surroundings

end LocaleWatch
