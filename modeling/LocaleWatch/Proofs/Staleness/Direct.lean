import LocaleWatch.Proofs.History.Branches
import LocaleWatch.Proofs.History.Files
import LocaleWatch.Proofs.History.Lookups

/-!
# The check without a cache

What a check says of a localized file can be computed from the repository's answers alone. While
these stay as they are, a check that goes through the cache says the same of every file of a
batch: each lookup gives what the repository gives, and what it writes down for the files after it
is what they would have been given anyway.

## Main results

* `Yields.mapM` — a batch yields what its members yield, whatever they leave for each other.
* `Facts.checkFiles_direct` — a check from a coherent store is the direct one.
* `Facts.checkFiles_direct_merged` — a check that finds it kept that a branch was not merged.
-/

namespace LocaleWatch

open History Surroundings

/-! ## What lookups write down -/

namespace Coherent

variable {answers : Answers} {forks : Bool} {entries : Entries} {commit : CommitId}
  {main : MainBranch}

/-- What was computed of a commit off the main branch may be kept. -/
theorem put_branch (coherent : Coherent answers forks entries)
    (told : answers .mainBranch = .ok main.commits) {category : String} {value : Option Commit}
    (apart : mainBranchCategory ≠ category ∧ lastCommitCategory ≠ category ∧
      commitsAfterCategory ≠ category)
    (isFork : forkCategory = category → computed answers (findFork main commit) = .ok value)
    (isMerge : mergeCategory = category → computed answers (findMerge main commit) = .ok value) :
    Coherent answers forks
      (entries.put category commit.text (Text.bytes (JsonForm.compact value))) where
  main held := coherent.main (Entries.of_put apart.1 held)
  fork {other bytes commits} counts held told' off := by
    rcases Entries.put_cases held with ⟨here, same, rfl⟩ | held
    · cases CommitId.text_injective same
      cases told.symm.trans told'
      exact ⟨value, JsonForm.decode_compact value, isFork here⟩
    · exact coherent.fork counts held told' off
  merge {other bytes commits} held told' off := by
    rcases Entries.put_cases held with ⟨here, same, rfl⟩ | held
    · cases CommitId.text_injective same
      cases told.symm.trans told'
      exact ⟨value, JsonForm.decode_compact value, .inr (isMerge here)⟩
    · exact coherent.merge held told' off
  last held := coherent.last (Entries.of_put apart.2.1 held)
  commitsAfter held := coherent.commitsAfter (Entries.of_put apart.2.2 held)

/-- A last commit may be kept for all spellings of a path if these are answered alike. -/
theorem put_last (coherent : Coherent answers forks entries) (byKey : ByKey answers) {path : Path}
    {value : Option Commit} (told : answers (.lastCommit path) = .ok value) :
    Coherent answers forks
      (entries.put lastCommitCategory path.key (Text.bytes (JsonForm.compact value))) where
  main held := coherent.main (Entries.of_put (by decide) held)
  fork counts held := coherent.fork counts (Entries.of_put (by decide) held)
  merge held := coherent.merge (Entries.of_put (by decide) held)
  last {other bytes} held := by
    rcases Entries.put_cases held with ⟨-, same, rfl⟩ | held
    · exact ⟨value, JsonForm.decode_compact value, byKey.last same.symm told⟩
    · exact coherent.last held
  commitsAfter held := coherent.commitsAfter (Entries.of_put (by decide) held)

/-- So may the commits after start points. -/
theorem put_commitsAfter (coherent : Coherent answers forks entries) (byKey : ByKey answers)
    {path : Path} {starts : CommitsByStart}
    (told : ∀ start commits, starts.get? start = some commits →
      answers (.commitsAfter path start) = .ok commits) :
    Coherent answers forks
      (entries.put commitsAfterCategory path.key (Text.bytes (JsonForm.compact starts))) where
  main held := coherent.main (Entries.of_put (by decide) held)
  fork counts held := coherent.fork counts (Entries.of_put (by decide) held)
  merge held := coherent.merge (Entries.of_put (by decide) held)
  last held := coherent.last (Entries.of_put (by decide) held)
  commitsAfter {other bytes} held := by
    rcases Entries.put_cases held with ⟨-, same, rfl⟩ | held
    · refine ⟨starts, JsonForm.decode_compact starts, fun start commits kept => ?_⟩
      exact byKey.commitsAfter same.symm (told start commits kept)
    · exact coherent.commitsAfter held

end Coherent

/-! ## Attempts that yield a value -/

/-- From every store of a kind the attempt gives this value, and leaves a store of that kind. -/
def Yields {α : Type} (answers : Answers) (kind : Entries → Prop) (attempt : History α)
    (value : α) : Prop :=
  ∀ entries, kind entries →
    lookedUp answers attempt entries = .ok value ∧ kind (leftBy answers attempt entries)

namespace Yields

variable {α β : Type} {answers : Answers} {kind : Entries → Prop}

theorem pure (value : α) : Yields answers kind (Pure.pure value : History α) value :=
  fun _ holds => ⟨rfl, holds⟩

theorem query {query : Query} {value : query.Result} (told : answers query = .ok value) :
    Yields answers kind (Tracking.query query) value := by
  intro entries holds
  rw [lookedUp_query, leftBy_query, told]
  exact ⟨rfl, holds⟩

theorem of_settles {attempt : History α} {value : α} (settles : Settles answers kind attempt)
    (stays : Stays answers kind attempt) (given : computed answers attempt = .ok value) :
    Yields answers kind attempt value :=
  fun entries holds => ⟨(settles entries holds).trans given, stays entries holds⟩

theorem bind {attempt : History α} {next : α → History β} {value : α} {last : β}
    (first : Yields answers kind attempt value) (second : Yields answers kind (next value) last) :
    Yields answers kind (attempt >>= next) last := by
  intro entries holds
  obtain ⟨given, left⟩ := first entries holds
  rw [lookedUp_bind, leftBy_bind, given]
  exact second _ left

/-- A batch yields what its members yield: what one leaves in the store does not matter to the
next. -/
theorem mapM {f : α → History β} {g : α → β} {items : List α}
    (yields : ∀ item ∈ items, Yields answers kind (f item) (g item)) :
    Yields answers kind (items.mapM f) (items.map g) := by
  induction items with
  | nil =>
    rw [List.mapM_nil]
    exact pure []
  | cons item more ih =>
    rw [List.mapM_cons]
    apply bind (yields item List.mem_cons_self)
    apply bind (ih fun other mem => yields other (List.mem_cons_of_mem _ mem))
    exact pure _

end Yields

/-! ## The direct computation -/

/-- What a repository says while it stays as it is and refuses nothing. -/
abbrev Facts : Type := (query : Query) → query.Result

namespace Facts

variable (facts : Facts)

/-- The repository that gives these answers. -/
def answers : Answers := fun query => .ok (facts query)

def main : MainBranch := ⟨facts .mainBranch⟩

/-- The nearest ancestor of a commit on the main branch; none on the main branch. -/
def fork (commit : CommitId) : Option Commit :=
  if facts.main.contains commit then none else facts.main.firstOn? (facts (.ancestors commit))

/-- The first merge point of a commit on the main branch; none on the main branch. -/
def merge (commit : CommitId) : Option Commit :=
  if facts.main.contains commit then none else facts.main.firstOn? (facts (.mergePoints commit))

/-- A commit is on the main branch or has an ancestor there. -/
def Rooted (commit : CommitId) : Prop :=
  facts.main.contains commit = true ∨
    ∃ ancestor ∈ facts (.ancestors commit), facts.main.contains ancestor.id = true

/-- The commits to an origin file after the commit from which a localized file with this last
commit is compared: its fork commit, or else that commit itself. -/
def updates (origin : Path) (last : Commit) : List OriginUpdate :=
  (facts (.commitsAfter origin ((facts.fork last.id).getD last).id)).map fun commit =>
    ⟨commit, facts.merge commit.id⟩

/-- The state of one localized file. -/
def localized (layout : Layout) (language path : String) : LocalizedFile :=
  let origin := layout.file layout.origin path
  let lastCommit := facts (.lastCommit (layout.file language path))
  let updates :=
    if facts (.fileExists origin) then lastCommit.elim [] (facts.updates origin) else []
  { path
    lastCommit
    fork := lastCommit.bind fun last => facts.fork last.id
    merge := lastCommit.bind fun last => facts.merge last.id
    status :=
      if facts (.fileExists origin) then if updates = [] then .unchanged else .modified
      else .missing
    updates }

variable {facts}

/-! ## Lookups -/

private theorem told_main : facts.answers .mainBranch = .ok facts.main.commits := rfl

variable {forks : Bool}

theorem mainBranch_yields :
    Yields facts.answers (Coherent facts.answers forks) mainBranch facts.main :=
  .of_settles Coherent.mainBranch_settles Coherent.mainBranch_stays
    (computed_mainBranch.2 told_main)

/-- A commit with an ancestor on the main branch has its direct fork commit. -/
theorem forkWithin_yields {commit : CommitId} (rooted : facts.Rooted commit) :
    Yields facts.answers (Coherent facts.answers true) (forkWithin facts.main commit)
      (facts.fork commit) := by
  unfold fork
  cases on : facts.main.contains commit with
  | true =>
    unfold forkWithin
    rw [on]
    exact .pure none
  | false =>
    have given : computed facts.answers (findFork facts.main commit) =
        .ok (facts.main.firstOn? (facts (.ancestors commit))) := by
      rcases rooted with isOn | ⟨ancestor, mem, isOn⟩
      · rw [on] at isOn
        contradiction
      · cases first : facts.main.firstOn? (facts (.ancestors commit)) with
        | none =>
          have off := List.find?_eq_none.1 first ancestor mem
          contradiction
        | some found => exact computed_findFork.2 ⟨_, found, rfl, first, rfl⟩
    have settles : Settles facts.answers (Coherent facts.answers true)
        (forkWithin facts.main commit) :=
      Coherent.forkWithin_settles told_main rfl commit
    rw [forkWithin_off on] at settles ⊢
    refine .of_settles settles ?_ ((computed_getUnless findFork_asksOnly).trans given)
    refine .getUnless findFork_asksOnly (fun entries bytes coherent held => ?_)
      fun entries value coherent given => coherent.put_branch told_main (by decide)
        (fun _ => given) fun same => absurd same (by decide)
    obtain ⟨value, decoded, given⟩ := coherent.fork rfl held told_main on
    exact ⟨value, decoded, fun _ => given⟩

/-- Every commit has its direct merge commit, also if it is kept that there was none. -/
theorem mergeWithin_yields (commit : CommitId) :
    Yields facts.answers (Coherent facts.answers forks) (mergeWithin facts.main commit)
      (facts.merge commit) := by
  unfold merge
  cases on : facts.main.contains commit with
  | true =>
    unfold mergeWithin
    rw [on]
    exact .pure none
  | false =>
    have given : computed facts.answers (findMerge facts.main commit) =
        .ok (facts.main.firstOn? (facts (.mergePoints commit))) :=
      computed_findMerge.2 ⟨_, rfl, rfl⟩
    have settles : Settles facts.answers (Coherent facts.answers forks)
        (mergeWithin facts.main commit) :=
      Coherent.mergeWithin_settles told_main commit
    rw [mergeWithin_off on] at settles ⊢
    refine .of_settles settles ?_ ((computed_getUnless findMerge_asksOnly).trans given)
    refine .getUnless findMerge_asksOnly (fun entries bytes coherent held => ?_)
      fun entries value coherent given => coherent.put_branch told_main (by decide)
        (fun same => absurd same (by decide)) fun _ => given
    obtain ⟨value, decoded, none | given⟩ := coherent.merge held told_main on
    · refine ⟨value, decoded, fun isSome => ?_⟩
      rw [none] at isSome
      contradiction
    · exact ⟨value, decoded, fun _ => given⟩

section

variable (byKey : ByKey facts.answers)
include byKey

theorem lastCommit_yields (path : Path) :
    Yields facts.answers (Coherent facts.answers forks) (lastCommit path)
      (facts (.lastCommit path)) := by
  have told : facts.answers (.lastCommit path) = .ok (facts (.lastCommit path)) := rfl
  have asked := computed_query told
  have given : computed facts.answers (lastCommit path) = .ok (facts (.lastCommit path)) :=
    (computed_getUnless (.query (.lastCommit path))).trans asked
  refine .of_settles (Coherent.lastCommit_settles path) ?_ given
  refine .getUnless (.query _) (fun entries bytes coherent held => ?_)
    fun entries value coherent given => ?_
  · obtain ⟨value, decoded, told⟩ := coherent.last held
    exact ⟨value, decoded, fun _ => computed_query told⟩
  · have same : facts (.lastCommit path) = value := Except.ok.inj (asked.symm.trans given)
    rw [← same]
    exact coherent.put_last byKey told

theorem commitsAfter_yields (path : Path) (start : CommitId) :
    Yields facts.answers (Coherent facts.answers forks) (History.commitsAfter path start)
      (facts (.commitsAfter path start)) := by
  intro entries coherent
  have kept : ∃ kept, entries.Shows commitsAfterCategory path.key kept ∧
      ∀ other commits, (kept.getD CommitsByStart.empty).get? other = some commits →
        facts.answers (.commitsAfter path other) = .ok commits := by
    cases held : entries commitsAfterCategory path.key with
    | none => exact ⟨none, held, nofun⟩
    | some bytes =>
      obtain ⟨starts, decoded, right⟩ := coherent.commitsAfter held
      exact ⟨some starts, ⟨bytes, held, decoded⟩, right⟩
  obtain ⟨kept, shown, right⟩ := kept
  obtain ⟨given, left⟩ := Coherent.commitsAfter_given kept shown (right start)
  refine ⟨given, ?_⟩
  rcases left with same | ⟨commits, told, written⟩
  · rw [same]
    exact coherent
  · rw [written]
    refine coherent.put_commitsAfter byKey fun other commits' found => ?_
    by_cases same : other = start
    · rw [same, CommitsByStart.get?_insert_self] at found
      cases found
      rw [same]
      exact told
    · rw [CommitsByStart.get?_insert_of_ne _ same] at found
      exact right other commits' found

/-! ## Files -/

omit byKey in
private theorem status_present (updates : List OriginUpdate) :
    Staleness.status true updates = if updates = [] then .unchanged else .modified := by
  cases updates <;> rfl

theorem updates_yields (origin : Path) (last : Commit) :
    Yields facts.answers (Coherent facts.answers forks)
      (Staleness.updates facts.main origin ((facts.fork last.id).getD last).id)
      (facts.updates origin last) := by
  apply (commitsAfter_yields byKey origin _).bind
  apply Yields.mapM
  intro commit _
  exact (mergeWithin_yields commit.id).bind (.pure _)

theorem checkFile_yields (layout : Layout) (language path : String)
    (rooted : ∀ last, facts (.lastCommit (layout.file language path)) = some last →
      facts.Rooted last.id) :
    Yields facts.answers (Coherent facts.answers true)
      (Staleness.checkFile layout facts.main language path)
      (facts.localized layout language path) := by
  have asked : Yields facts.answers (Coherent facts.answers true)
      (Tracking.query (.fileExists (layout.file layout.origin path)))
      (facts (.fileExists (layout.file layout.origin path))) := .query rfl
  unfold Staleness.checkFile localized
  dsimp only
  apply (lastCommit_yields byKey _).bind
  cases committed : facts (.lastCommit (layout.file language path)) with
  | none =>
    apply asked.bind
    cases facts (.fileExists (layout.file layout.origin path)) <;> exact .pure _
  | some last =>
    apply (forkWithin_yields (rooted last committed)).bind
    apply (mergeWithin_yields last.id).bind
    apply asked.bind
    cases facts (.fileExists (layout.file layout.origin path)) with
    | false => exact .pure _
    | true =>
      apply (updates_yields byKey _ last).bind
      rw [status_present]
      exact .pure _

/-- From a coherent store a check gives, for each path in turn, what is computed directly for that
path alone, and it leaves a coherent store. -/
theorem checkFiles_direct {entries : Entries} (coherent : Coherent facts.answers true entries)
    (layout : Layout) (language : String) (paths : List String)
    (rooted : ∀ path ∈ paths, ∀ last,
      facts (.lastCommit (layout.file language path)) = some last → facts.Rooted last.id) :
    lookedUp facts.answers (Staleness.checkFiles layout language paths) entries =
        .ok (paths.map (facts.localized layout language)) ∧
      Coherent facts.answers true
        (leftBy facts.answers (Staleness.checkFiles layout language paths) entries) := by
  have yields : Yields facts.answers (Coherent facts.answers true)
      (Staleness.checkFiles layout language paths)
      (paths.map (facts.localized layout language)) :=
    mainBranch_yields.bind (.mapM fun path mem =>
      checkFile_yields byKey layout language path (rooted path mem))
  exact yields entries coherent

end

/-! ### A branch that was merged meanwhile -/

/-- A repository with `baseCommit` and the merge of a branch that left it there. The branch holds
the last commit of one German page, `baseCommit` is that of all other files; the branch and the
merge have changed all origin files. -/
def merged : Facts
  | .mainBranch => [mergeCommit, baseCommit]
  | .lastCommit path => some (if path.key = "content/de/page" then branchCommit else baseCommit)
  | .ancestors commit =>
    if commit = baseCommit.id then [baseCommit] else [namedCommit commit, baseCommit]
  | .mergePoints _ => [mergeCommit]
  | .commitsAfter _ start => if start = baseCommit.id then [branchCommit, mergeCommit] else []
  | .fileExists path => path.key ≠ "content/en/note"
  | .files _ | .filesIn _ | .filesBetween _ _ => ["page"]
  | .freshCommits => []
  | .parents _ => []
  | .mainHead => some mergeCommit.id
  | .fetch | .pull => ()

/-- The state of the page on the branch. -/
def mergedPage : LocalizedFile where
  path := "page"
  lastCommit := some branchCommit
  fork := some baseCommit
  merge := some mergeCommit
  status := .modified
  updates := [⟨branchCommit, some mergeCommit⟩, ⟨mergeCommit, none⟩]

/-- It is kept that the branch is not merged. -/
def unmergedKept : Entries :=
  Entries.empty.put mergeCategory "s2" (Text.bytes (JsonForm.compact (none : Option Commit)))

private theorem unmergedKept_coherent : Coherent merged.answers true unmergedKept where
  main held := nomatch Entries.of_put (by decide) held
  fork _ held := nomatch Entries.of_put (by decide) held
  merge {commit bytes commits} held _ _ := by
    rcases Entries.put_cases held with ⟨-, -, rfl⟩ | held
    · exact ⟨none, JsonForm.decode_compact none, .inl rfl⟩
    · contradiction
  last held := nomatch Entries.of_put (by decide) held
  commitsAfter held := nomatch Entries.of_put (by decide) held

private theorem merged_byKey : ByKey merged.answers where
  last {path other value} same told := by
    rw [← told]
    show Except.ok (merged (.lastCommit other)) = Except.ok (merged (.lastCommit path))
    simp only [merged, same]
  commitsAfter _ told := told

/-- The merge is found nevertheless, and the file without an origin file has no updates. -/
theorem checkFiles_direct_merged :
    lookedUp merged.answers (Staleness.checkFiles .standard "de" ["page", "note"]) unmergedKept =
      .ok [mergedPage,
        { path := "note"
          lastCommit := some baseCommit
          fork := none
          merge := none
          status := .missing
          updates := [] }] := by
  have rooted (commit : CommitId) : merged.Rooted commit := by
    refine .inr ⟨baseCommit, ?_, by decide⟩
    have chain : merged (.ancestors commit) =
        if commit = baseCommit.id then [baseCommit] else [namedCommit commit, baseCommit] := rfl
    rw [chain]
    split <;> simp
  have direct := (checkFiles_direct merged_byKey unmergedKept_coherent .standard "de"
    ["page", "note"] fun _ _ last _ => rooted last.id).1
  refine direct.trans (congrArg Except.ok ?_)
  decide +kernel

end Facts

end LocaleWatch
