import LocaleWatch.Proofs.Refresh.Events
import LocaleWatch.Proofs.Refresh.Growth

/-!
# What a refresh leaves in the store

A refresh that gives an outcome looks up the main branch and fork commits on its way, and lookups
write down what they find. Of all this only the new fork commits are left in the end: the main
branch is dropped again if it has moved, and if nothing is fresh it is not looked up at all. So the
store differs from what it was before by the entries of the changed files, by the main branch, by
new fork commits and by the state of the refresh, and by nothing else.

## Main results

* `Entries.GrowsBy` — what lookups of a refresh leave: new fork commits of some branches.
* `Refresh.Stages` — the store before a refresh, after it has gathered, and in the end.
* `Surroundings.refresh_effect` — what the store holds after a refresh.
* `Surroundings.refresh_effect_merged` — after one that merges a branch.
-/

namespace LocaleWatch

open Attempt History

/-! ## Lookups -/

namespace Entries

variable {entries last : Entries} {events : List (Event Tracking)}

/-- A lookup of the main branch gives the one that is kept, or writes down the one that is told. -/
theorem leads_mainLookup {main : MainBranch} (lookup : MainLookup events main)
    (leads : entries.Leads events last) :
    (entries.Shows mainBranchCategory "" (some main.commits) ∧ last = entries) ∨
      (entries mainBranchCategory "" = none ∧ .query .mainBranch (.ok main.commits) ∈ events ∧
        ∃ bytes, last = entries.put mainBranchCategory "" bytes) := by
  cases lookup with
  | @kept held commits decodes =>
    obtain ⟨-, told, rfl⟩ := leads
    have same : last mainBranchCategory "" = held := told
    exact .inl ⟨shows_iff.2 (same ▸ decodes), rfl⟩
  | asked =>
    obtain ⟨-, told, -, -, -, rfl⟩ := leads
    exact .inr ⟨told, by simp, _, rfl⟩

/-- A lookup of a fork commit changes nothing, or writes one down that was not kept. -/
theorem leads_forkLookup {main : MainBranch} {branch : CommitId} {value : Option Commit}
    (lookup : ForkLookup main branch events value) (leads : entries.Leads events last) :
    last = entries ∨ (entries forkCategory branch.text = none ∧
      ∃ bytes, last = entries.put forkCategory branch.text bytes) := by
  cases lookup with
  | on isOn => exact .inl leads
  | kept off decodes =>
    obtain ⟨-, -, rfl⟩ := leads
    exact .inl rfl
  | asked off first =>
    obtain ⟨-, told, -, -, -, rfl⟩ := leads
    exact .inr ⟨told, _, rfl⟩

end Entries

/-- The store has grown by fork commits of some branches, and the main branch may be kept anew. -/
structure Entries.GrowsBy (branches : CommitId → Prop) (entries last : Entries) : Prop where
  others : ∀ category key, category ≠ forkCategory → ¬(category = mainBranchCategory ∧ key = "") →
    last category key = entries category key
  kept : ∀ key bytes, entries forkCategory key = some bytes → last forkCategory key = some bytes
  grown : ∀ key, entries forkCategory key = none → last forkCategory key ≠ none →
    ∃ branch, branches branch ∧ key = branch.text

namespace Entries.GrowsBy

variable {branches others : CommitId → Prop} {entries between last : Entries}

theorem refl : GrowsBy branches entries entries :=
  ⟨fun _ _ _ _ => rfl, fun _ _ held => held, fun _ none held => absurd none held⟩

theorem trans (first : GrowsBy branches entries between) (second : GrowsBy branches between last) :
    GrowsBy branches entries last where
  others category key ne notMain :=
    (second.others category key ne notMain).trans (first.others category key ne notMain)
  kept key bytes held := second.kept key bytes (first.kept key bytes held)
  grown key none held := by
    by_cases early : between forkCategory key = .none
    · exact second.grown key early held
    · exact first.grown key none early

theorem mono (grows : GrowsBy branches entries last)
    (more : ∀ branch, branches branch → others branch) : GrowsBy others entries last where
  others := grows.others
  kept := grows.kept
  grown key none held := by
    obtain ⟨branch, isOne, same⟩ := grows.grown key none held
    exact ⟨branch, more branch isOne, same⟩

theorem put_main {bytes : List UInt8} :
    GrowsBy branches entries (entries.put mainBranchCategory "" bytes) where
  others _ _ _ notMain := put_of_ne notMain
  kept _ _ held := (put_of_category (by decide)).trans held
  grown _ none held := absurd ((put_of_category (by decide)).trans none) held

theorem put_fork {branch : CommitId} {bytes : List UInt8} (isOne : branches branch)
    (absent : entries forkCategory branch.text = none) :
    GrowsBy branches entries (entries.put forkCategory branch.text bytes) where
  others _ _ ne _ := put_of_category ne
  kept key old held := by
    refine (put_of_ne fun both => ?_).trans held
    rw [both.2, absent] at held
    contradiction
  grown key none held := by
    by_cases same : key = branch.text
    · exact ⟨branch, isOne, same⟩
    · exact absurd ((put_of_ne fun both => same both.2).trans none) held

end Entries.GrowsBy

namespace Refresh

variable {entries last : Entries} {events : List (Event Tracking)}

/-- The branch by which a merge with two parents comes into a main branch, as the repository told
the parents. -/
def BringsBranch (events : List (Event Tracking)) (main : MainBranch) (merge branch : CommitId) :
    Prop :=
  ∃ first second, .query (.parents merge) (.ok [first, second]) ∈ events ∧
    [first, second].filter (!main.contains ·) = [branch]

/-- To find out what a merge brings in, the fork commit of its branch is looked up. -/
private theorem growsBy_mergeFilesLookup {main : MainBranch} {merge : CommitId}
    {files : List String} (lookup : MergeFilesLookup main merge events files)
    (leads : entries.Leads events last) :
    entries.GrowsBy (BringsBranch events main merge) last := by
  cases lookup with
  | plain few =>
    obtain ⟨-, rfl⟩ := leads
    exact .refl
  | branch off lookup =>
    obtain ⟨-, leads⟩ := leads
    obtain ⟨between, forking, -, rfl⟩ := Entries.leads_append.1 leads
    rcases Entries.leads_forkLookup lookup forking with rfl | ⟨absent, bytes, rfl⟩
    · exact .refl
    · exact .put_fork ⟨_, _, List.mem_cons_self, off⟩ absent

private theorem growsBy_merges {main : MainBranch} {merges : List CommitId}
    {lists : List (List String)}
    (ends : Ends (merges.mapM (mergeFilesWithin main)) events (.ok lists))
    (leads : entries.Leads events last) :
    entries.GrowsBy (fun branch => ∃ merge ∈ merges, BringsBranch events main merge branch)
      last := by
  induction merges generalizing entries events lists with
  | nil =>
    obtain ⟨rfl, -⟩ := ends_mapM_nil.1 ends
    cases leads
    exact .refl
  | cons merge more ih =>
    obtain ⟨files, rest, before, after, -, rfl, first, others⟩ := ends_mapM_cons.1 ends
    obtain ⟨between, early, late⟩ := Entries.leads_append.1 leads
    have here := growsBy_mergeFilesLookup (ends_mergeFilesWithin_ok first) early
    refine .trans (here.mono ?_) ((ih others late).mono ?_)
    · rintro branch ⟨left, right, told, off⟩
      exact ⟨merge, List.mem_cons_self, left, right, List.mem_append_left _ told, off⟩
    · rintro branch ⟨other, mem, left, right, told, off⟩
      exact ⟨other, List.mem_cons_of_mem _ mem, left, right, List.mem_append_right _ told, off⟩

/-! ## Gathering -/

/-- The main branch that a refresh starts from: the one that is kept, or else the one that the
repository told. -/
def StartsFrom (entries : Entries) (events : List (Event Tracking)) (main : MainBranch) : Prop :=
  entries.Shows mainBranchCategory "" (some main.commits) ∨
    (entries mainBranchCategory "" = none ∧ .query .mainBranch (.ok main.commits) ∈ events)

/-- A branch by which one of some merges comes into the main branch as it is going to be. -/
def BringsIn (entries : Entries) (events : List (Event Tracking)) (fresh : List Commit)
    (merges : List CommitId) (branch : CommitId) : Prop :=
  ∃ main, StartsFrom entries events main ∧
    ∃ merge ∈ merges, BringsBranch events (main.extendedWith fresh) merge branch

theorem BringsIn.mono {fresh : List Commit} {merges others : List CommitId} {branch : CommitId}
    {more : List (Event Tracking)} (brings : BringsIn entries events fresh merges branch)
    (among : events ⊆ more) (subset : merges ⊆ others) :
    BringsIn entries more fresh others branch := by
  obtain ⟨main, starts, merge, mem, first, second, told, off⟩ := brings
  exact ⟨main, starts.imp_right fun ⟨absent, told⟩ => ⟨absent, among told⟩,
    merge, subset mem, first, second, among told, off⟩

private theorem growsBy_mergedFiles {fresh : List Commit} {merges : List CommitId}
    {merged : List String} (ends : Ends (mergedFiles fresh merges) events (.ok merged))
    (leads : entries.Leads events last) :
    entries.GrowsBy (BringsIn entries events fresh merges) last := by
  rcases ends_mergedFiles_ok ends with
    ⟨-, rfl, -⟩ | ⟨-, main, looking, attributing, lists, rfl, looked, attributed, -⟩
  · cases leads
    exact .refl
  · obtain ⟨between, looks, attributes⟩ := Entries.leads_append.1 leads
    have grows (starts : StartsFrom entries looking main) :
        between.GrowsBy (BringsIn entries (looking ++ attributing) fresh merges) last := by
      refine (growsBy_merges attributed attributes).mono ?_
      rintro branch ⟨merge, mem, first, second, told, off⟩
      exact ⟨main, starts.imp_right fun ⟨absent, told⟩ => ⟨absent, List.mem_append_left _ told⟩,
        merge, mem, first, second, List.mem_append_right _ told, off⟩
    rcases Entries.leads_mainLookup looked looks with ⟨shows, rfl⟩ | ⟨absent, told, bytes, rfl⟩
    · exact grows (.inl shows)
    · exact .trans .put_main (grows (.inr ⟨absent, told⟩))

private theorem leads_listings {fresh : List Commit} {listings : List (CommitId × List String)}
    (ends : Ends (Refresh.listings fresh) events (.ok listings))
    (leads : entries.Leads events last) : last = entries := by
  have asks : Asks (Tracking.Request.sparesEntries · = true) (Refresh.listings fresh) := by
    refine .mapM fun commit _ => ?_
    have listed : Asks (Tracking.Request.sparesEntries · = true)
        (Tracking.query (.filesIn commit.id)) :=
      Asks.mapError ⟨rfl, fun _ => trivial⟩
    exact listed.bind fun files => .pure _
  exact Entries.leads_spared (asks.ends ends) leads

/-- What gathering leaves: with nothing fresh all is as it was, and otherwise there are new fork
commits of branches that come in. -/
theorem leads_gather {outcome : Outcome} (ends : Ends gather events (.ok outcome))
    (leads : entries.Leads events last) :
    (outcome.fresh = [] → last = entries ∧ outcome.changed = []) ∧
      entries.GrowsBy (BringsIn entries events outcome.fresh (outcome.fresh.map (·.id))) last := by
  obtain ⟨listing, merging, listings, merged, rfl, listed, attributed, changed⟩ :=
    ends_gather_ok ends
  obtain ⟨-, -, leads⟩ := leads
  obtain ⟨between, early, late⟩ := Entries.leads_append.1 leads
  cases leads_listings listed early
  constructor
  · intro none
    rw [none] at listed
    obtain ⟨-, rfl⟩ := ends_mapM_nil.1 listed
    rcases ends_mergedFiles_ok attributed with ⟨-, rfl, rfl⟩ | ⟨some, -⟩
    · exact ⟨late, changed⟩
    · contradiction
  · refine (growsBy_mergedFiles attributed late).mono fun branch brings => brings.mono ?_ ?_
    · intro event mem
      simp [mem]
    · intro commit mem
      obtain ⟨found, isListing, rfl⟩ := List.mem_map.1 mem
      obtain ⟨merge, mem, part, -, round⟩ :=
        (Ends.rounds listed).2.1 found (List.mem_filter.1 isListing).1
      exact List.mem_map.2 ⟨merge, mem, (ends_listing round).2.symm⟩

/-! ## Forgetting and settling -/

/-- Whether an entry is one of some files. -/
def OfFiles (files : List String) (category key : String) : Prop :=
  (category = lastCommitCategory ∨ category = commitsAfterCategory) ∧
    ∃ file ∈ files, key = (Path.ofText file).key

theorem files_apart {category : String}
    (isFile : category = lastCommitCategory ∨ category = commitsAfterCategory) :
    category ≠ forkCategory ∧ category ≠ mainBranchCategory ∧ category ≠ stateCategory := by
  rcases isFile with rfl | rfl
  · decide
  · decide

/-- Forgetting files removes their entries, and no others. -/
theorem leads_removals {files : List String} (leads : entries.Leads (files.flatMap removals) last) :
    ∀ category key, (OfFiles files category key → last category key = none) ∧
      (¬ OfFiles files category key → last category key = entries category key) := by
  induction files generalizing entries with
  | nil =>
    cases leads
    exact fun category key => ⟨fun isOne => by simp [OfFiles] at isOne, fun _ => rfl⟩
  | cons file more ih =>
    obtain ⟨-, -, leads⟩ := leads
    intro category key
    obtain ⟨gone, spared⟩ := ih leads category key
    by_cases later : OfFiles more category key
    · refine ⟨fun _ => gone later, fun notOne => ?_⟩
      obtain ⟨isKept, other, mem, same⟩ := later
      exact absurd ⟨isKept, other, List.mem_cons_of_mem _ mem, same⟩ notOne
    · rw [spared later]
      refine ⟨fun isOne => ?_, fun notOne => ?_⟩
      · obtain ⟨isKept, other, mem, rfl⟩ := isOne
        rcases List.mem_cons.1 mem with rfl | mem
        · rcases isKept with rfl | rfl
          · exact (Entries.remove_of_category (by decide)).trans Entries.remove_self
          · exact Entries.remove_self
        · exact absurd ⟨isKept, other, mem, rfl⟩ later
      · have apart (kept : String) (isKept : kept = lastCommitCategory ∨
            kept = commitsAfterCategory) :
            ¬(category = kept ∧ key = (Path.ofText file).key) := by
          rintro ⟨rfl, rfl⟩
          exact notOne ⟨isKept, file, List.mem_cons_self, rfl⟩
        exact (Entries.remove_of_ne (apart _ (.inr rfl))).trans
          (Entries.remove_of_ne (apart _ (.inl rfl)))

/-- What settling makes of the store: the main branch is dropped if it has moved, and the state is
written. -/
def Outcome.settled (outcome : Outcome) (head : Option CommitId) (entries : Entries) : Entries :=
  (if outcome.fresh.isEmpty then entries else entries.remove mainBranchCategory "").put
    stateCategory "" (outcome.stateBytes head)

section

variable {outcome : Outcome} {head : Option CommitId}

theorem settled_of_ne {category key : String} (main : ¬(category = mainBranchCategory ∧ key = ""))
    (noState : ¬(category = stateCategory ∧ key = "")) :
    outcome.settled head entries category key = entries category key := by
  refine (Entries.put_of_ne noState).trans ?_
  split
  · rfl
  · exact Entries.remove_of_ne main

theorem settled_of_still (still : outcome.fresh = []) {category key : String}
    (noState : ¬(category = stateCategory ∧ key = "")) :
    outcome.settled head entries category key = entries category key := by
  unfold Outcome.settled
  rw [Entries.put_of_ne noState, still]
  rfl

theorem settled_main :
    outcome.settled head entries mainBranchCategory "" =
      if outcome.fresh.isEmpty then entries mainBranchCategory "" else none := by
  refine (Entries.put_of_category (by decide)).trans ?_
  split
  · rfl
  · exact Entries.remove_self

theorem settled_shows_state : (outcome.settled head entries).Shows stateCategory ""
    (some (⟨head, outcome.changed⟩ : RefreshState)) :=
  Entries.shows_put _

theorem leads_settling (settles : Settling outcome events (.ok outcome))
    (leads : entries.Leads events last) :
    ∃ head, [.query .mainHead (.ok head), .isCancelled false,
        .write stateCategory "" (outcome.stateBytes head) (.ok ())] <:+ events ∧
      last = outcome.settled head entries := by
  cases settles with
  | @dropped recording _ records =>
    obtain ⟨between, drops, leads⟩ := Entries.leads_append.1 leads
    have dropped : between = if outcome.fresh.isEmpty then entries
        else entries.remove mainBranchCategory "" := by
      unfold Outcome.dropping at drops
      split at drops
      · next none =>
        rw [none]
        exact drops
      · next some =>
        rw [if_neg some]
        exact drops.2
    cases records with
    | @written head =>
      obtain ⟨-, -, -, rfl⟩ := leads
      exact ⟨head, List.suffix_append _ _, by rw [dropped]; rfl⟩

end

/-! ## From one end to the other -/

/-- What the store holds before a refresh that gives an outcome, after it has gathered, and in the
end. -/
structure Stages (outcome : Outcome) (events : List (Event Tracking))
    (before gathered after : Entries) : Prop where
  still : outcome.fresh = [] → gathered = before ∧ outcome.changed = []
  grows : before.GrowsBy (BringsIn before events outcome.fresh (outcome.fresh.map (·.id))) gathered
  settled : ∃ head forgot, after = outcome.settled head forgot ∧
    (∀ category key, (OfFiles outcome.changed category key → forgot category key = none) ∧
      (¬ OfFiles outcome.changed category key → forgot category key = gathered category key)) ∧
    ∃ earlier, events = earlier ++ [.query .mainHead (.ok head), .isCancelled false,
        .write stateCategory "" (outcome.stateBytes head) (.ok ())] ∧
      .query .pull (.ok ()) ∈ earlier

theorem Running.stages {outcome : Outcome} {after : Entries}
    (running : Running events (.ok outcome)) (leads : entries.Leads events after) :
    ∃ gathered, Stages outcome events entries gathered after := by
  obtain ⟨gathering, settling, rfl, gathers, settles⟩ := running.ended
  obtain ⟨forgot, early, -, (late : forgot.Leads settling after)⟩ := Entries.leads_append.1 leads
  obtain ⟨gathered, gathers', forgets⟩ := Entries.leads_append.1 early
  obtain ⟨still, grows⟩ := leads_gather gathers gathers'
  obtain ⟨head, ⟨settled, written⟩, left⟩ := leads_settling settles late
  refine ⟨gathered, still, grows.mono fun branch brings => brings.mono (fun event mem => ?_)
    (List.Subset.refl _), head, forgot, left, leads_removals forgets,
    gathering ++ outcome.changed.flatMap removals ++ .query .pull (.ok ()) :: settled, ?_, by simp⟩
  · simp [mem]
  · rw [← written]
    simp

namespace Stages

variable {outcome : Outcome} {gathered after : Entries}
  (stages : Stages outcome events entries gathered after) {category : String}

include stages

/-- What is kept about a changed file is gone. -/
theorem ofFiles {key : String} (isOne : OfFiles outcome.changed category key) :
    after category key = none := by
  obtain ⟨head, forgot, rfl, files, -⟩ := stages.settled
  obtain ⟨-, notMain, noState⟩ := files_apart isOne.1
  rw [settled_of_ne (fun both => notMain both.1) fun both => noState both.1]
  exact (files category key).1 isOne

/-- Once gathered, other entries stay, but for the main branch and the state. -/
theorem spared {key : String} (notFile : ¬ OfFiles outcome.changed category key)
    (main : ¬(category = mainBranchCategory ∧ key = ""))
    (noState : ¬(category = stateCategory ∧ key = "")) :
    after category key = gathered category key := by
  obtain ⟨head, forgot, rfl, files, -⟩ := stages.settled
  rw [settled_of_ne main noState]
  exact (files category key).2 notFile

theorem fork (key : String) : after forkCategory key = gathered forkCategory key :=
  stages.spared (fun isOne => (files_apart isOne.1).1 rfl)
    (fun both => absurd both.1 (by decide)) fun both => absurd both.1 (by decide)

theorem main : after mainBranchCategory "" =
    if outcome.fresh.isEmpty then entries mainBranchCategory "" else none := by
  obtain ⟨head, forgot, rfl, files, -⟩ := stages.settled
  rw [settled_main]
  split
  · next none =>
    have notFile : ¬ OfFiles outcome.changed mainBranchCategory "" :=
      fun isOne => (files_apart isOne.1).2.1 rfl
    rw [(files mainBranchCategory "").2 notFile, (stages.still (List.isEmpty_iff.1 none)).1]
  · rfl

/-- From the start on, entries stay that are none of a changed file, no fork commit, and neither the
main branch nor the state. -/
theorem others {key : String} (notFile : ¬ OfFiles outcome.changed category key)
    (noFork : category ≠ forkCategory) (main : ¬(category = mainBranchCategory ∧ key = ""))
    (noState : ¬(category = stateCategory ∧ key = "")) :
    after category key = entries category key :=
  (stages.spared notFile main noState).trans (stages.grows.others category key noFork main)

/-- With nothing fresh only the state is another one. -/
theorem unchanged (none : outcome.fresh = []) {key : String}
    (noState : ¬(category = stateCategory ∧ key = "")) :
    after category key = entries category key := by
  obtain ⟨head, forgot, rfl, files, -⟩ := stages.settled
  obtain ⟨same, nothing⟩ := stages.still none
  have notFile : ¬ OfFiles outcome.changed category key := by
    rw [nothing]
    rintro ⟨-, file, mem, -⟩
    contradiction
  rw [settled_of_still none noState, (files category key).2 notFile, same]

end Stages

end Refresh

namespace Surroundings

variable {σ : Type} {S : Surroundings σ} {state : σ} {outcome : Refresh.Outcome}

open Refresh in
/-- How the store differs after a refresh that gives an outcome. What was kept about the changed
files is gone, and what was kept about other files is as it was. The main branch is gone if there
were fresh commits, and as it was if there were none. Fork commits that were kept are as they were,
and new ones are those of branches by which fresh merges come in. Kept merge commits are as they
were. The state tells the head after the pull and the changed files. Nothing else differs, and if
nothing was fresh, nothing but the state does. -/
theorem refresh_effect (told : S.result Refresh.run state = .ok outcome) :
    let events := S.trace Refresh.run state
    let before := S.entries state
    let after := S.entries (S.after Refresh.run state)
    (∀ category, category = lastCommitCategory ∨ category = commitsAfterCategory → ∀ key,
      ((∃ file ∈ outcome.changed, key = (Path.ofText file).key) → after category key = none) ∧
      ((¬ ∃ file ∈ outcome.changed, key = (Path.ofText file).key) →
        after category key = before category key)) ∧
    (after mainBranchCategory "" =
      if outcome.fresh.isEmpty then before mainBranchCategory "" else none) ∧
    (∀ key bytes, before forkCategory key = some bytes → after forkCategory key = some bytes) ∧
    (∀ key, before forkCategory key = none → after forkCategory key ≠ none → ∃ branch,
      key = branch.text ∧
        BringsIn before events outcome.fresh (outcome.fresh.map (·.id)) branch) ∧
    (∀ key, after mergeCategory key = before mergeCategory key) ∧
    (∃ earlier head, events = earlier ++ [.query .mainHead (.ok head), .isCancelled false,
        .write stateCategory "" (outcome.stateBytes head) (.ok ())] ∧
      .query .pull (.ok ()) ∈ earlier ∧
      after.Shows stateCategory "" (some (⟨head, outcome.changed⟩ : RefreshState))) ∧
    (∀ category key, category ∉ [lastCommitCategory, commitsAfterCategory, forkCategory] →
      ¬(category ∈ [mainBranchCategory, stateCategory] ∧ key = "") →
        after category key = before category key) ∧
    (outcome.fresh = [] → ∀ category key, ¬(category = stateCategory ∧ key = "") →
      after category key = before category key) := by
  intro events before after
  have running : Running events (.ok outcome) := ends_run (told ▸ ends_trace Refresh.run state)
  obtain ⟨gathered, stages⟩ := running.stages (S.leads Refresh.run state)
  refine ⟨fun category isFile key => ⟨fun changed => ?_, fun unchanged => ?_⟩, stages.main, ?_, ?_,
    fun key => ?_, ?_, fun category key apart unsettled => ?_,
    fun none category key noState => stages.unchanged none noState⟩
  · exact stages.ofFiles ⟨isFile, changed⟩
  · obtain ⟨notFork, notMain, noState⟩ := files_apart isFile
    exact stages.others (fun isOne => unchanged isOne.2) notFork (fun both => notMain both.1)
      fun both => noState both.1
  · intro key bytes held
    exact (stages.fork key).trans (stages.grows.kept key bytes held)
  · intro key absent held
    obtain ⟨branch, brings, same⟩ :=
      stages.grows.grown key absent fun none => held ((stages.fork key).trans none)
    exact ⟨branch, same, brings⟩
  · have notFile : ¬ OfFiles outcome.changed mergeCategory key := by
      rintro ⟨isFile, -⟩
      exact isFile.elim (by decide) (by decide)
    exact stages.others notFile (by decide) (fun both => absurd both.1 (by decide))
      fun both => absurd both.1 (by decide)
  · obtain ⟨head, forgot, left, -, earlier, written, pulled⟩ := stages.settled
    refine ⟨earlier, head, written, pulled, ?_⟩
    rw [show after = _ from left]
    exact settled_shows_state
  · simp only [List.mem_cons, List.not_mem_nil, or_false, not_or] at apart unsettled
    exact stages.others (fun isOne => isOne.1.elim apart.1 apart.2.1) apart.2.2
      (fun both => unsettled ⟨.inl both.1, both.2⟩) fun both => unsettled ⟨.inr both.1, both.2⟩

/-- The state after the last commit of a page was looked up. -/
def pageKnown : Bool × Entries :=
  (pulling branched).after (History.lastCommit (Path.ofText "page")) (false, .empty)

/-- A refresh that merges a branch forgets the page that it changed. -/
theorem refresh_effect_merged :
    (pulling branched).result Refresh.run pageKnown =
        .ok ⟨[mergeCommit, nextCommit], ["page"]⟩ ∧
      pageKnown.2 lastCommitCategory (Path.ofText "page").key ≠ none ∧
      ((pulling branched).after Refresh.run pageKnown).2 lastCommitCategory
        (Path.ofText "page").key = none := by
  have told : (pulling branched).result Refresh.run pageKnown =
      .ok ⟨[mergeCommit, nextCommit], ["page"]⟩ := rfl
  have files := (refresh_effect told).1 lastCommitCategory (.inl rfl) (Path.ofText "page").key
  refine ⟨told, ?_, files.1 ⟨"page", List.mem_singleton_self _, rfl⟩⟩
  show some _ ≠ none
  exact nofun

end Surroundings

end LocaleWatch
