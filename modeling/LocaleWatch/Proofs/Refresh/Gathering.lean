import LocaleWatch.Proofs.History.Branches
import LocaleWatch.Proofs.History.MainBranch
import LocaleWatch.Proofs.Refresh.Phases

/-!
# What a refresh gathers

Before its pull a refresh asks the repository about the fresh commits while the answers stay
as they are. Its main branch is the one that was kept beforehand, or else the repository's,
with the fresh commits on top; a fork commit is the one that was kept beforehand, or else the
nearest ancestor on that main branch. What it writes down meanwhile is that and no more.

## Main results

* `Surroundings.keeps_mergeFilesWithin` — the files that a merge brings in.
* `Surroundings.keeps_changedFiles` — the changed files, and what is left in the store.
-/

namespace LocaleWatch

open History

/-- Whether a query is about the history, so that neither its name nor its answer depends on
what was fetched and not pulled. -/
def Query.IsHistory (query : Query) : Prop :=
  query.isOrder = false ∧ query ≠ .freshCommits

/-- The fork commit that a refresh sees for a commit off its main branch. -/
inductive SeenFork (kept : Entries) (answers : Answers) (fresh : List Commit) (commit : CommitId) :
    Option Commit → Prop where
  | kept {value : Option Commit} (shown : kept.Shows forkCategory commit.text (some value)) :
    SeenFork kept answers fresh commit value
  | found {commits ancestors : List Commit} {fork : Commit}
    (absent : kept forkCategory commit.text = none) (main : SeenMain kept answers commits)
    (off : (MainBranch.extendedWith ⟨commits⟩ fresh).contains commit = false)
    (told : answers (.ancestors commit) = .ok ancestors)
    (first : (MainBranch.extendedWith ⟨commits⟩ fresh).firstOn? ancestors = some fork) :
    SeenFork kept answers fresh commit (some fork)

/-- The files that a refresh sees a commit bring in: none with at most one parent, and with
two those in which the only parent off its main branch differs from its fork commit. -/
inductive Brings (kept : Entries) (answers : Answers) (fresh : List Commit) (merge : CommitId) :
    List String → Prop where
  | plain {parents : List CommitId} (told : answers (.parents merge) = .ok parents)
    (few : parents.length ≤ 1) : Brings kept answers fresh merge []
  | branch {first second branch : CommitId} {commits : List Commit} {fork : Commit}
    {files : List String} (told : answers (.parents merge) = .ok [first, second])
    (main : SeenMain kept answers commits)
    (off : [first, second].filter (!(MainBranch.extendedWith ⟨commits⟩ fresh).contains ·) =
      [branch])
    (seen : SeenFork kept answers fresh branch (some fork))
    (differ : answers (.filesBetween fork.id branch) = .ok files) :
    Brings kept answers fresh merge files

section

variable {kept : Entries} {answers : Answers} {fresh : List Commit}

theorem SeenFork.unique {commit : CommitId} {first second : Option Commit}
    (seen : SeenFork kept answers fresh commit first)
    (again : SeenFork kept answers fresh commit second) : first = second := by
  cases seen with
  | kept shown =>
    cases again with
    | kept shown' =>
      cases shown.unique shown'
      rfl
    | found absent =>
      obtain ⟨bytes, held, -⟩ := shown
      rw [absent] at held
      contradiction
  | found absent main off told first =>
    cases again with
    | kept shown =>
      obtain ⟨bytes, held, -⟩ := shown
      rw [absent] at held
      contradiction
    | found absent' main' off' told' first' =>
      cases main.unique main'
      cases told.symm.trans told'
      exact first.symm.trans first'

/-- A commit brings in one list of files. -/
theorem Brings.unique {merge : CommitId} {first second : List String}
    (brings : Brings kept answers fresh merge first)
    (again : Brings kept answers fresh merge second) : first = second := by
  cases brings with
  | plain told few =>
    cases again with
    | plain => rfl
    | branch told' =>
      cases told.symm.trans told'
      simp at few
  | branch told main off seen differ =>
    cases again with
    | plain told' few =>
      cases told.symm.trans told'
      simp at few
    | branch told' main' off' seen' differ' =>
      cases told.symm.trans told'
      cases main.unique main'
      cases off.symm.trans off'
      cases seen.unique seen'
      cases differ.symm.trans differ'
      rfl

/-- The files that fresh commits change: those a commit lists itself, and those that a commit
which lists none brings in. -/
def Changes (kept : Entries) (answers : Answers) (fresh : List Commit) (file : String) : Prop :=
  ∃ commit ∈ fresh, ∃ files, answers (.filesIn commit.id) = .ok files ∧
    (file ∈ files ∨ files = [] ∧ ∃ brought, Brings kept answers fresh commit.id brought ∧
      file ∈ brought)

/-! ## The store meanwhile -/

/-- What the store holds while a refresh gathers and forgets: what it held beforehand, less
entries about files, and what the refresh has seen of the main branch and of fork commits. -/
structure Gathering (kept : Entries) (answers : Answers) (fresh : List Commit)
    (entries : Entries) : Prop where
  main : MainSeen kept answers entries
  fork : ∀ {key bytes}, entries forkCategory key = some bytes →
    kept forkCategory key = some bytes ∨ (kept forkCategory key = none ∧
      ∃ (commit : CommitId) (value : Option Commit), key = commit.text ∧
        bytes = Text.bytes (JsonForm.compact value) ∧ SeenFork kept answers fresh commit value)
  forkAbsent : ∀ {key}, entries forkCategory key = none → kept forkCategory key = none
  merge : ∀ key, entries mergeCategory key = kept mergeCategory key
  last : ∀ {key bytes}, entries lastCommitCategory key = some bytes →
    kept lastCommitCategory key = some bytes
  commitsAfter : ∀ {key bytes}, entries commitsAfterCategory key = some bytes →
    kept commitsAfterCategory key = some bytes

namespace Gathering

variable {entries : Entries}

theorem refl : Gathering kept answers fresh kept :=
  ⟨.refl, .inl, id, fun _ => rfl, id, id⟩

/-- What the entries show of a fork commit is what the refresh sees. -/
theorem seenFork (gathering : Gathering kept answers fresh entries) {commit : CommitId}
    {value : Option Commit} (shown : entries.Shows forkCategory commit.text (some value)) :
    SeenFork kept answers fresh commit value := by
  obtain ⟨bytes, held, read⟩ := shown
  rcases gathering.fork held with before | ⟨-, other, found, same, rfl, seen⟩
  · exact .kept ⟨bytes, before, read⟩
  · rw [JsonForm.decode_compact] at read
    cases read
    cases CommitId.text_injective same
    exact seen

theorem put_main {commits : List Commit} (gathering : Gathering kept answers fresh entries)
    (absent : kept mainBranchCategory "" = none) (told : answers .mainBranch = .ok commits) :
    Gathering kept answers fresh
      (entries.put mainBranchCategory "" (Text.bytes (JsonForm.compact commits))) where
  main := .put absent told
  fork held := gathering.fork (Entries.of_put (by decide) held)
  forkAbsent none := gathering.forkAbsent (Entries.absent_of_put none)
  merge key := (Entries.put_of_category (by decide)).trans (gathering.merge key)
  last held := gathering.last (Entries.of_put (by decide) held)
  commitsAfter held := gathering.commitsAfter (Entries.of_put (by decide) held)

theorem put_fork {commit : CommitId} {value : Option Commit}
    (gathering : Gathering kept answers fresh entries)
    (absent : kept forkCategory commit.text = none)
    (seen : SeenFork kept answers fresh commit value) :
    Gathering kept answers fresh
      (entries.put forkCategory commit.text (Text.bytes (JsonForm.compact value))) where
  main := gathering.main.congr (Entries.put_of_category (by decide))
  fork {key bytes} held := by
    rcases Entries.put_cases held with ⟨-, rfl, rfl⟩ | held
    · exact .inr ⟨absent, commit, value, rfl, rfl, seen⟩
    · exact gathering.fork held
  forkAbsent none := gathering.forkAbsent (Entries.absent_of_put none)
  merge key := (Entries.put_of_category (by decide)).trans (gathering.merge key)
  last held := gathering.last (Entries.of_put (by decide) held)
  commitsAfter held := gathering.commitsAfter (Entries.of_put (by decide) held)

/-- Forgetting something about a file. -/
theorem remove {category : String} (gathering : Gathering kept answers fresh entries)
    (main : mainBranchCategory ≠ category) (fork : forkCategory ≠ category)
    (merge : mergeCategory ≠ category) (key : String) :
    Gathering kept answers fresh (entries.remove category key) where
  main := gathering.main.congr (Entries.remove_of_category main)
  fork held := gathering.fork (Entries.of_remove held)
  forkAbsent none := gathering.forkAbsent ((Entries.remove_of_category fork).symm.trans none)
  merge other := (Entries.remove_of_category merge).trans (gathering.merge other)
  last held := gathering.last (Entries.of_remove held)
  commitsAfter held := gathering.commitsAfter (Entries.of_remove held)

end Gathering

end

namespace Surroundings

variable {σ : Type} {S : Surroundings σ} {orders : Query → Prop} {kept : Entries}
  {answers : LocaleWatch.Answers} {fresh : List Commit}

/-- The repository's history stays as it is, and the store holds what a refresh gathers. -/
abbrev Gathers (S : Surroundings σ) (kept : Entries) (answers : LocaleWatch.Answers)
    (fresh : List Commit) : σ → Prop :=
  S.Holding Query.IsHistory answers (Gathering kept answers fresh)

variable (steady : S.SteadyBut orders Query.IsHistory)
  (onlyOrders : ∀ query, orders query → query.isOrder = true)
include steady onlyOrders

/-- A question about the history is answered as it is throughout. -/
theorem keeps_history (query : Query) (history : query.IsHistory) :
    Attempt.Keeps S.handler (S.Gathers kept answers fresh) (Tracking.query query) fun value =>
      answers query = .ok value :=
  keeps_answer steady onlyOrders history.1 history

theorem keeps_gatheredMain :
    Attempt.Keeps S.handler (S.Gathers kept answers fresh) History.mainBranch fun main =>
      SeenMain kept answers main.commits :=
  keeps_mainBranch steady onlyOrders ⟨rfl, nofun⟩ (fun _ gathering => gathering.main)
    fun _ _ absent told gathering => gathering.put_main absent told

/-- A commit off the main branch gets the fork commit that the refresh sees. -/
theorem keeps_forkWithin {commits : List Commit} (main : SeenMain kept answers commits)
    (commit : CommitId) :
    Attempt.Keeps S.handler (S.Gathers kept answers fresh)
      (History.forkWithin (MainBranch.extendedWith ⟨commits⟩ fresh) commit)
      (OffMain (MainBranch.extendedWith ⟨commits⟩ fresh) commit
        (SeenFork kept answers fresh commit)) := by
  refine keeps_forkFound steady onlyOrders ⟨rfl, nofun⟩
    (fun gathering shown => gathering.seenFork shown)
    (fun gathering none => gathering.forkAbsent none) ?_
  intro fork off absent isFork
  obtain ⟨ancestors, told, first⟩ := isFork
  have seen : SeenFork kept answers fresh commit (some fork) := .found absent main off told first
  exact ⟨seen, fun gathering => gathering.put_fork absent seen⟩

/-- The files that a merge brings in. -/
theorem keeps_mergeFilesWithin {commits : List Commit} (main : SeenMain kept answers commits)
    (merge : CommitId) :
    Attempt.Keeps S.handler (S.Gathers kept answers fresh)
      (History.mergeFilesWithin (MainBranch.extendedWith ⟨commits⟩ fresh) merge)
      (Brings kept answers fresh merge) := by
  unfold History.mergeFilesWithin
  apply (keeps_history steady onlyOrders (.parents merge) ⟨rfl, nofun⟩).bind
  intro parents told
  split
  · exact .pure (.plain told (Nat.zero_le 1))
  · exact .pure (.plain told (Nat.le_refl 1))
  · next first second =>
    split
    · next branch off =>
      have isOff : branch ∈ [first, second].filter
          (!(MainBranch.extendedWith ⟨commits⟩ fresh).contains ·) := off ▸ List.mem_singleton_self _
      apply (keeps_forkWithin steady onlyOrders main branch).bind
      intro fork found
      rcases found with ⟨on, -⟩ | ⟨-, seen⟩
      · rw [List.mem_filter, on] at isOff
        cases isOff.2
      · cases fork with
        | none => exact .throw
        | some fork =>
          refine (keeps_history steady onlyOrders (.filesBetween fork.id branch) ⟨rfl, nofun⟩).mono
            fun files differ => ?_
          exact .branch told main off seen differ
    · exact .throw
  · exact .throw

/-- Each fresh commit's own files. -/
private theorem keeps_listings :
    Attempt.Keeps S.handler (S.Gathers kept answers fresh) (Refresh.listings fresh)
      fun listings =>
        (∀ commit ∈ fresh, ∃ listing ∈ listings,
          listing.1 = commit.id ∧ answers (.filesIn commit.id) = .ok listing.2) ∧
        ∀ listing ∈ listings, ∃ commit ∈ fresh,
          listing.1 = commit.id ∧ answers (.filesIn commit.id) = .ok listing.2 := by
  apply Attempt.Keeps.mapM
  intro commit _
  refine (keeps_history steady onlyOrders (.filesIn commit.id) ⟨rfl, nofun⟩).bind
    fun files told => ?_
  exact .pure ⟨rfl, told⟩

/-- The files that some commits bring in, taken together. -/
private theorem keeps_mergedFiles (merges : List CommitId) :
    Attempt.Keeps S.handler (S.Gathers kept answers fresh) (Refresh.mergedFiles fresh merges)
      fun merged =>
        (∀ merge ∈ merges, ∃ brought, Brings kept answers fresh merge brought) ∧
        ∀ file, file ∈ merged ↔
          ∃ merge ∈ merges, ∃ brought, Brings kept answers fresh merge brought ∧
            file ∈ brought := by
  unfold Refresh.mergedFiles
  split
  · next none =>
    rw [List.isEmpty_iff] at none
    subst none
    exact .pure ⟨nofun, fun file => by simp⟩
  · apply (keeps_gatheredMain steady onlyOrders).bind
    intro main seen
    refine Attempt.Keeps.bind (.mapM fun merge _ =>
      keeps_mergeFilesWithin steady onlyOrders seen merge) fun lists found => ?_
    refine .pure ⟨fun merge mem => ?_, fun file => ⟨fun mem => ?_, fun brought => ?_⟩⟩
    · obtain ⟨brought, -, brings⟩ := found.1 merge mem
      exact ⟨brought, brings⟩
    · obtain ⟨brought, isIn, fileIn⟩ := List.mem_flatten.1 mem
      obtain ⟨merge, mem, brings⟩ := found.2 brought isIn
      exact ⟨merge, mem, brought, brings, fileIn⟩
    · obtain ⟨merge, mem, brought, brings, fileIn⟩ := brought
      obtain ⟨other, isIn, brings'⟩ := found.1 merge mem
      rw [brings.unique brings'] at fileIn
      exact List.mem_flatten.2 ⟨other, isIn, fileIn⟩

/-- The changed files, and what is left in the store: each fresh commit was listed, and each
that lists no file of its own was looked at for what it brings in. -/
theorem keeps_changedFiles :
    Attempt.Keeps S.handler (S.Gathers kept answers fresh) (Refresh.changedFiles fresh)
      fun changed =>
        changed.Pairwise (· < ·) ∧ (∀ file, file ∈ changed ↔ Changes kept answers fresh file) ∧
          ∀ commit ∈ fresh, ∃ files, answers (.filesIn commit.id) = .ok files ∧
            (files = [] → ∃ brought, Brings kept answers fresh commit.id brought) := by
  unfold Refresh.changedFiles
  apply (keeps_listings steady onlyOrders).bind
  intro listings listed
  apply (keeps_mergedFiles steady onlyOrders _).bind
  intro merged found
  have isMerge {commit : CommitId} :
      commit ∈ (listings.filter (·.2.isEmpty)).map (·.1) ↔
        ∃ other ∈ fresh, commit = other.id ∧ answers (.filesIn other.id) = .ok [] := by
    constructor
    · intro mem
      obtain ⟨listing, isIn, rfl⟩ := List.mem_map.1 mem
      obtain ⟨isIn, empty⟩ := List.mem_filter.1 isIn
      obtain ⟨other, mem, same, told⟩ := listed.2 listing isIn
      rw [List.isEmpty_iff.1 empty] at told
      exact ⟨other, mem, same, told⟩
    · intro known
      obtain ⟨other, mem, rfl, told⟩ := known
      obtain ⟨listing, isIn, same, told'⟩ := listed.1 other mem
      have empty : listing.2 = [] := Except.ok.inj (told'.symm.trans told)
      refine List.mem_map.2 ⟨listing, List.mem_filter.2 ⟨isIn, ?_⟩, same⟩
      rw [empty]
      rfl
  refine .pure ⟨Text.sortedDistinct_pairwise _, fun file => ?_, fun commit mem => ?_⟩
  · rw [Text.mem_sortedDistinct, List.mem_append, List.mem_flatMap, found.2]
    constructor
    · intro known
      rcases known with ⟨listing, isIn, own⟩ | ⟨merge, isIn, brought, brings, fileIn⟩
      · obtain ⟨commit, mem, -, told⟩ := listed.2 listing isIn
        exact ⟨commit, mem, listing.2, told, .inl own⟩
      · obtain ⟨commit, mem, rfl, told⟩ := isMerge.1 isIn
        exact ⟨commit, mem, [], told, .inr ⟨rfl, brought, brings, fileIn⟩⟩
    · intro changes
      obtain ⟨commit, mem, files, told, own | ⟨none, brought, brings, fileIn⟩⟩ := changes
      · obtain ⟨listing, isIn, -, told'⟩ := listed.1 commit mem
        cases told.symm.trans told'
        exact .inl ⟨listing, isIn, own⟩
      · subst none
        exact .inr ⟨commit.id, isMerge.2 ⟨commit, mem, rfl, told⟩, brought, brings, fileIn⟩
  · obtain ⟨listing, isIn, -, told⟩ := listed.1 commit mem
    refine ⟨listing.2, told, fun none => ?_⟩
    rw [none] at told
    exact found.1 commit.id (isMerge.2 ⟨commit, mem, rfl, told⟩)

end Surroundings

end LocaleWatch
