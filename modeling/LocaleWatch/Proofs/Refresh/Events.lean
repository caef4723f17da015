import LocaleWatch.Proofs.Events
import LocaleWatch.Proofs.Refresh.Phases
import LocaleWatch.Proofs.Requests

/-!
# The events of a refresh

A refresh may be led through many events, since it loops over commits, merges and files and since
it may fail at any of them. But each of its phases asks requests of its own kinds only, and a phase
that is over has asked all that it is there for: gathering has found out every file that the fresh
commits list or bring in, forgetting has removed the two entries of each of them, and settling ends
with the state being written down.

## Main results

* `Refresh.ends_gather_ok` — what has been asked when the changed files are known.
* `Refresh.ends_forget_ok` — what has been removed when they are forgotten.
* `Refresh.ends_settle` — how a refresh ends that has pulled.
* `Refresh.ends_run` — the events of a refresh are those of its phases.
-/

namespace LocaleWatch

open Attempt

/-- The files that the repository listed for a commit, or between two of them. -/
def Event.files : Event Tracking → List String
  | ⟨.query (.filesIn _), .ok files⟩ => files
  | ⟨.query (.filesBetween _ _), .ok files⟩ => files
  | _ => []

/-- The commit whose files the repository listed, with these files. -/
def Event.listing : Event Tracking → List (CommitId × List String)
  | ⟨.query (.filesIn commit), .ok files⟩ => [(commit, files)]
  | _ => []

namespace Refresh

variable {events : List (Event Tracking)} {fresh : List Commit}

/-! ## Gathering -/

/-- Whether a request may be asked while a refresh gathers what is fresh: it is not the pull, it
removes nothing, and it leaves the state of the last refresh alone. -/
def Gathers : Tracking.Request → Prop
  | .query query => query ≠ .pull
  | .write category _ _ => category ≠ stateCategory
  | .delete _ _ => False
  | _ => True

/-- Gathering neither pulls nor removes anything. -/
theorem asks_gather : Asks Gathers gather := by
  have questions (query : Query) (other : query ≠ .pull) : Gathers (.query query) := other
  have main : Tracking.MayLookUp Gathers History.mainBranchCategory "" .mainBranch :=
    ⟨trivial, fun _ same => absurd same (by decide), by nofun⟩
  have forks (commit : CommitId) :
      Tracking.MayLookUp Gathers History.forkCategory commit.text (.ancestors commit) :=
    ⟨trivial, fun _ same => absurd same (by decide), by nofun⟩
  refine (asks_query .fetch (questions _ (by nofun))).bind fun _ => ?_
  refine (asks_query .freshCommits (questions _ (by nofun))).bind fun fresh => ?_
  exact (asks_changedFiles trivial main forks fresh questions).bind fun changed => .pure _

theorem ends_mergedFiles_ok {merges : List CommitId} {merged : List String}
    (ends : Ends (mergedFiles fresh merges) events (.ok merged)) :
    (merges = [] ∧ events = [] ∧ merged = []) ∨
      merges ≠ [] ∧ ∃ main looking attributing lists, events = looking ++ attributing ∧
        MainLookup looking main ∧
        Ends (merges.mapM (History.mergeFilesWithin (main.extendedWith fresh))) attributing
          (.ok lists) ∧ merged = lists.flatten := by
  unfold mergedFiles at ends
  cases none : merges.isEmpty with
  | true =>
    rw [none] at ends
    obtain ⟨rfl, same⟩ := ends_pure.1 ends
    cases same
    exact .inl ⟨List.isEmpty_iff.1 none, rfl, rfl⟩
  | false =>
    rw [none] at ends
    obtain ⟨main, looking, _, rfl, looked, rest⟩ := ends_bind_ok.1 ends
    obtain ⟨lists, attributing, _, rfl, attributed, last⟩ := ends_bind_ok.1 rest
    obtain ⟨rfl, same⟩ := ends_pure.1 last
    cases same
    rw [List.append_nil]
    exact .inr ⟨List.isEmpty_eq_false_iff.1 none, main, looking, attributing, lists, rfl,
      ends_mainBranch_ok looked, attributed, rfl⟩

/-- What has been asked once the changed files are known: the fresh commits, the files of each of
them, and what those bring in that list none. -/
theorem ends_gather_ok {outcome : Outcome} (ends : Ends gather events (.ok outcome)) :
    ∃ listing merging listings merged,
      events = .query .fetch (.ok ()) :: .query .freshCommits (.ok outcome.fresh) ::
        (listing ++ merging) ∧
      Ends (Refresh.listings outcome.fresh) listing (.ok listings) ∧
      Ends (mergedFiles outcome.fresh ((listings.filter (·.2.isEmpty)).map (·.1))) merging
        (.ok merged) ∧
      outcome.changed = Text.sortedDistinct (listings.flatMap (·.2) ++ merged) := by
  obtain ⟨⟨⟩, _, _, rfl, fetched, rest⟩ := ends_bind_ok.1 ends
  obtain ⟨fresh, _, _, rfl, asked, rest'⟩ := ends_bind_ok.1 rest
  obtain ⟨changed, _, _, rfl, found, last⟩ := ends_bind_ok.1 rest'
  obtain ⟨rfl, same⟩ := ends_pure.1 last
  cases same
  obtain ⟨listings, listing, _, rfl, listed, others⟩ := ends_bind_ok.1 found
  obtain ⟨merged, merging, _, rfl, attributed, final⟩ := ends_bind_ok.1 others
  obtain ⟨rfl, same⟩ := ends_pure.1 final
  cases same
  rw [ends_query_ok.1 fetched, ends_query_ok.1 asked, List.append_nil, List.append_nil]
  exact ⟨listing, merging, listings, merged, rfl, listed, attributed, rfl⟩

/-! ### Which files are listed -/

/-- One fresh commit is listed. -/
theorem ends_listing {commit : Commit} {listing : CommitId × List String}
    (ends : Ends (do return (commit.id, ← Tracking.query (.filesIn commit.id)) :
      History (CommitId × List String)) events (.ok listing)) :
    events = [.query (.filesIn commit.id) (.ok listing.2)] ∧ listing.1 = commit.id := by
  obtain ⟨files, _, _, rfl, asked, rest⟩ := ends_bind_ok.1 ends
  obtain ⟨rfl, same⟩ := ends_pure.1 rest
  cases same
  rw [ends_query_ok.1 asked]
  exact ⟨rfl, rfl⟩

/-- While the fresh commits are listed, every answer is a list of files of one of them. -/
theorem collected_listings {listings : List (CommitId × List String)}
    (ends : Ends (Refresh.listings fresh) events (.ok listings)) :
    events.flatMap Event.listing = listings ∧
      events.flatMap Event.files = listings.flatMap (·.2) := by
  have listing : events.flatMap Event.listing = listings.flatMap fun listing => [listing] := by
    refine Ends.flatMap_mapM (fun commit part listing round => ?_) ends
    obtain ⟨rfl, same⟩ := ends_listing round
    show [(commit.id, listing.2)] = [listing]
    rw [← same]
  refine ⟨listing.trans (by simp), Ends.flatMap_mapM (fun commit part listing round => ?_) ends⟩
  obtain ⟨rfl, -⟩ := ends_listing round
  exact List.append_nil _

private theorem collected_mainLookup {main : MainBranch} (lookup : MainLookup events main) :
    events.flatMap Event.listing = [] ∧ events.flatMap Event.files = [] := by
  cases lookup <;> exact ⟨rfl, rfl⟩

private theorem collected_forkLookup {main : MainBranch} {commit : CommitId}
    {value : Option Commit} (lookup : ForkLookup main commit events value) :
    events.flatMap Event.listing = [] ∧ events.flatMap Event.files = [] := by
  cases lookup <;> exact ⟨rfl, rfl⟩

private theorem collected_mergeFilesLookup {main : MainBranch} {merge : CommitId}
    {files : List String} (lookup : MergeFilesLookup main merge events files) :
    events.flatMap Event.listing = [] ∧ events.flatMap Event.files = files := by
  cases lookup with
  | plain few => exact ⟨rfl, rfl⟩
  | branch off lookup =>
    obtain ⟨listing, listed⟩ := collected_forkLookup lookup
    constructor
    · rw [List.flatMap_cons, List.flatMap_append, listing]
      rfl
    · rw [List.flatMap_cons, List.flatMap_append, listed]
      exact List.append_nil files

/-- While merges are attributed, every list of files is one that they bring in. -/
theorem collected_mergedFiles {merges : List CommitId} {merged : List String}
    (ends : Ends (mergedFiles fresh merges) events (.ok merged)) :
    events.flatMap Event.listing = [] ∧ events.flatMap Event.files = merged := by
  rcases ends_mergedFiles_ok ends with
    ⟨-, rfl, rfl⟩ | ⟨-, main, looking, attributing, lists, rfl, looked, attributed, rfl⟩
  · exact ⟨rfl, rfl⟩
  · obtain ⟨listing, listed⟩ := collected_mainLookup looked
    rw [List.flatMap_append, List.flatMap_append, listing, listed]
    constructor
    · refine (Ends.flatMap_mapM (fun merge part files round => ?_) attributed).trans
        (List.flatMap_eq_nil_iff.2 fun files _ => rfl)
      exact (collected_mergeFilesLookup (ends_mergeFilesWithin_ok round)).1
    · refine (Ends.flatMap_mapM (fun merge part files round => ?_) attributed).trans
        List.flatMap_id'
      exact (collected_mergeFilesLookup (ends_mergeFilesWithin_ok round)).2

/-! ### What is known in the end -/

/-- What has been asked once a refresh knows what is fresh and which files change. -/
structure Gathered (events : List (Event Tracking)) (outcome : Outcome) : Prop where
  fetched : .query .fetch (.ok ()) ∈ events
  fresh : .query .freshCommits (.ok outcome.fresh) ∈ events
  listed : ∀ commit ∈ outcome.fresh, ∃ files, .query (.filesIn commit.id) (.ok files) ∈ events
  attributed : ∀ commit, .query (.filesIn commit) (.ok []) ∈ events →
    ∃ main looking attributing files, MainLookup looking main ∧ looking <:+: events ∧
      MergeFilesLookup (main.extendedWith outcome.fresh) commit attributing files ∧
        attributing <:+: events
  changed : outcome.changed = Text.sortedDistinct (events.flatMap Event.files)

theorem gathered_of_ends {outcome : Outcome} (ends : Ends gather events (.ok outcome)) :
    Gathered events outcome := by
  obtain ⟨listing, merging, listings, merged, same, listed, attributed, changed⟩ :=
    ends_gather_ok ends
  obtain ⟨listed', files⟩ := collected_listings listed
  obtain ⟨none, files'⟩ := collected_mergedFiles attributed
  have collected : events.flatMap Event.listing = listings := by
    rw [same, List.flatMap_cons, List.flatMap_cons, List.flatMap_append, listed', none]
    exact List.append_nil _
  have inListing : listing <:+: events :=
    ⟨[.query .fetch (.ok ()), .query .freshCommits (.ok outcome.fresh)], merging, by simp [same]⟩
  have inMerging : merging <:+: events :=
    ⟨.query .fetch (.ok ()) :: .query .freshCommits (.ok outcome.fresh) :: listing, [],
      by simp [same]⟩
  refine ⟨by simp [same], by simp [same], fun commit mem => ?_, fun commit mem => ?_, ?_⟩
  · obtain ⟨found, -, part, isPart, round⟩ := (Ends.rounds listed).1 commit mem
    obtain ⟨rfl, -⟩ := ends_listing round
    exact ⟨found.2, (isPart.trans inListing).subset List.mem_cons_self⟩
  · have isListed : (commit, []) ∈ listings :=
      collected ▸ List.mem_flatMap.2 ⟨_, mem, List.mem_singleton_self _⟩
    have isMerge : commit ∈ (listings.filter (·.2.isEmpty)).map (·.1) :=
      List.mem_map.2 ⟨_, List.mem_filter.2 ⟨isListed, rfl⟩, rfl⟩
    rcases ends_mergedFiles_ok attributed with
      ⟨no, -, -⟩ | ⟨-, main, looking, attributing, lists, rfl, looked, merges, -⟩
    · rw [no] at isMerge
      contradiction
    · obtain ⟨brought, -, part, isPart, round⟩ := (Ends.rounds merges).1 commit isMerge
      have inLooking : looking <:+: events :=
        (List.prefix_append looking attributing).isInfix.trans inMerging
      have inAttributing : attributing <:+: events :=
        (List.suffix_append looking attributing).isInfix.trans inMerging
      exact ⟨main, looking, part, brought, looked, inLooking, ends_mergeFilesWithin_ok round,
        isPart.trans inAttributing⟩
  · rw [changed, same, List.flatMap_cons, List.flatMap_cons, List.flatMap_append, files, files']
    rfl

/-! ## Forgetting -/

/-- Whether a request removes what is kept about a file. -/
def Forgets : Tracking.Request → Prop
  | .delete category _ => category = History.lastCommitCategory ∨
      category = History.commitsAfterCategory
  | _ => False

/-- The removals by which a file is forgotten. -/
def removals (file : String) : List (Event Tracking) :=
  [.delete History.lastCommitCategory (Path.ofText file).key (.ok ()),
    .delete History.commitsAfterCategory (Path.ofText file).key (.ok ())]

/-- Forgetting files removes what is kept about files, and nothing else is asked. -/
theorem asks_forget (files : List String) : Asks Forgets (files.forM History.forgetFile) := by
  refine .forM fun file _ => ?_
  have last : Asks Forgets (Cache.drop History.lastCommitCategory (Path.ofText file).key) :=
    ⟨.inl rfl, fun _ => trivial⟩
  have commitsAfter : Asks Forgets
      (Cache.drop History.commitsAfterCategory (Path.ofText file).key) :=
    ⟨.inr rfl, fun _ => trivial⟩
  exact last.mapError.bind fun _ => commitsAfter.mapError

/-- Files that are forgotten have had both of their entries removed. -/
theorem ends_forget_ok {files : List String}
    (ends : Ends (files.forM History.forgetFile) events (.ok ())) :
    events = files.flatMap removals := by
  induction files generalizing events with
  | nil => exact (ends_pure.1 ends).1
  | cons file more ih =>
    obtain ⟨⟨⟩, _, _, rfl, forgot, rest⟩ := ends_bind_ok.1 ends
    obtain ⟨⟨⟩, _, _, rfl, last, commitsAfter⟩ := ends_bind_ok.1 forgot
    rw [ends_drop.1 (ends_mapError_ok.1 last), ends_drop.1 (ends_mapError_ok.1 commitsAfter),
      ih rest]
    rfl

theorem ends_prepare_ok {outcome : Outcome} (ends : Ends prepare events (.ok outcome)) :
    ∃ gathering, Ends gather gathering (.ok outcome) ∧
      events = gathering ++ outcome.changed.flatMap removals := by
  obtain ⟨gathered, gathering, _, rfl, gathers, rest⟩ := ends_bind_ok.1 ends
  obtain ⟨⟨⟩, _, _, rfl, forgets, last⟩ := ends_bind_ok.1 rest
  obtain ⟨rfl, same⟩ := ends_pure.1 last
  cases same
  rw [ends_forget_ok forgets, List.append_nil]
  exact ⟨gathering, gathers, rfl⟩

/-! ## Settling -/

/-- The removal of the main branch if it has moved. -/
def Outcome.dropping (outcome : Outcome) : List (Event Tracking) :=
  if outcome.fresh.isEmpty then [] else [.delete History.mainBranchCategory "" (.ok ())]

/-- What the state of a refresh is written as. -/
def Outcome.stateBytes (outcome : Outcome) (head : Option CommitId) : List UInt8 :=
  Text.bytes (JsonForm.compact (⟨head, outcome.changed⟩ : RefreshState))

/-- How the state of a refresh is written down. -/
inductive Recording (outcome : Outcome) :
    List (Event Tracking) → Except HistoryError Outcome → Prop where
  | unknown {error : RepositoryError} :
    Recording outcome [.query .mainHead (.error error)] (.error (.repository error))
  | cancelled {head : Option CommitId} :
    Recording outcome [.query .mainHead (.ok head), .isCancelled true]
      (.error (.cache (.cancelled .write)))
  | refused {head : Option CommitId} {error : CacheError} :
    Recording outcome [.query .mainHead (.ok head), .isCancelled false,
      .write stateCategory "" (outcome.stateBytes head) (.error error)] (.error (.cache error))
  | written {head : Option CommitId} :
    Recording outcome [.query .mainHead (.ok head), .isCancelled false,
      .write stateCategory "" (outcome.stateBytes head) (.ok ())] (.ok outcome)

theorem ends_record {outcome : Outcome} {result : Except HistoryError Outcome}
    (ends : Ends (record outcome) events result) : Recording outcome events result := by
  rcases ends_bind.1 ends with ⟨error, asked, rfl⟩ | ⟨head, _, _, rfl, asked, rest⟩
  · obtain ⟨error | told, rfl, same⟩ := ends_query.1 asked
    · cases same
      exact .unknown
    · cases same
  · rw [ends_query_ok.1 asked]
    rcases ends_bind.1 rest with ⟨error, wrote, rfl⟩ | ⟨⟨⟩, _, _, rfl, wrote, last⟩
    · obtain ⟨told, wrote, same⟩ := ends_mapError.1 wrote
      cases ends_put wrote with
      | cancelled =>
        cases same
        exact .cancelled
      | asked =>
        cases told with
        | ok done => cases same
        | error error =>
          cases same
          exact .refused
    · obtain ⟨rfl, rfl⟩ := ends_pure.1 last
      rw [ends_put_ok (ends_mapError_ok.1 wrote)]
      exact .written

/-- How a refresh ends that has pulled. -/
inductive Settling (outcome : Outcome) :
    List (Event Tracking) → Except HistoryError Outcome → Prop where
  | refused {error : CacheError} (moved : outcome.fresh ≠ []) :
    Settling outcome [.delete History.mainBranchCategory "" (.error error)] (.error (.cache error))
  | dropped {recording : List (Event Tracking)} {result : Except HistoryError Outcome}
    (records : Recording outcome recording result) :
    Settling outcome (outcome.dropping ++ recording) result

theorem ends_settle {outcome : Outcome} {result : Except HistoryError Outcome}
    (ends : Ends (settle outcome) events result) : Settling outcome events result := by
  unfold settle at ends
  cases none : outcome.fresh.isEmpty with
  | true =>
    rw [none] at ends
    have records := Settling.dropped (ends_record ends)
    unfold Outcome.dropping at records
    rwa [none] at records
  | false =>
    rw [none] at ends
    rcases ends_bind.1 ends with ⟨error, dropped, rfl⟩ | ⟨⟨⟩, _, _, rfl, dropped, rest⟩
    · obtain ⟨told, dropped, same⟩ := ends_mapError.1 dropped
      rw [ends_drop.1 dropped]
      cases told with
      | ok done => cases same
      | error error =>
        cases same
        exact .refused (List.isEmpty_eq_false_iff.1 none)
    · rw [ends_drop.1 (ends_mapError_ok.1 dropped)]
      have records := Settling.dropped (ends_record rest)
      unfold Outcome.dropping at records
      rwa [none] at records

/-! ## The whole refresh -/

/-- How a refresh goes: it fails while it gathers or while it forgets, or at the pull, or it
settles. -/
inductive Running : List (Event Tracking) → Except HistoryError Outcome → Prop where
  | gathering {gathering : List (Event Tracking)} {error : HistoryError}
    (gathers : Ends gather gathering (.error error)) : Running gathering (.error error)
  | forgetting {outcome : Outcome} {gathering forgetting : List (Event Tracking)}
    {error : HistoryError} (gathers : Ends gather gathering (.ok outcome))
    (forgets : Ends (outcome.changed.forM History.forgetFile) forgetting (.error error)) :
    Running (gathering ++ forgetting) (.error error)
  | pulling {outcome : Outcome} {gathering : List (Event Tracking)} {error : RepositoryError}
    (gathers : Ends gather gathering (.ok outcome)) :
    Running (gathering ++ outcome.changed.flatMap removals ++ [.query .pull (.error error)])
      (.error (.repository error))
  | settling {outcome : Outcome} {gathering settling : List (Event Tracking)}
    {result : Except HistoryError Outcome} (gathers : Ends gather gathering (.ok outcome))
    (settles : Settling outcome settling result) :
    Running (gathering ++ outcome.changed.flatMap removals ++ .query .pull (.ok ()) :: settling)
      result

/-- The events of a refresh are those of its phases. -/
theorem ends_run {result : Except HistoryError Outcome} (ends : Ends run events result) :
    Running events result := by
  rw [run_eq] at ends
  rcases ends_bind.1 ends with ⟨error, advances, rfl⟩ | ⟨outcome, _, _, rfl, advances, settles⟩
  · rcases ends_bind.1 advances with
      ⟨error, prepares, same⟩ | ⟨outcome, _, _, rfl, prepares, pulls⟩
    · cases same
      rcases ends_bind.1 prepares with
        ⟨error, gathers, same⟩ | ⟨outcome, _, _, rfl, gathers, forgets⟩
      · cases same
        exact .gathering gathers
      · rcases ends_bind.1 forgets with ⟨error, forgets, same⟩ | ⟨⟨⟩, _, _, rfl, -, last⟩
        · cases same
          exact .forgetting gathers forgets
        · cases (ends_pure.1 last).2
    · obtain ⟨gathering, gathers, rfl⟩ := ends_prepare_ok prepares
      rcases ends_bind.1 pulls with ⟨error, pulls, same⟩ | ⟨⟨⟩, _, _, rfl, -, last⟩
      · cases same
        obtain ⟨error | told, rfl, same⟩ := ends_query.1 pulls
        · cases same
          exact .pulling gathers
        · cases same
      · cases (ends_pure.1 last).2
  · obtain ⟨prepared, _, _, rfl, prepares, pulls⟩ := ends_bind_ok.1 advances
    obtain ⟨gathering, gathers, rfl⟩ := ends_prepare_ok prepares
    obtain ⟨⟨⟩, _, _, rfl, pulled, last⟩ := ends_bind_ok.1 pulls
    obtain ⟨rfl, same⟩ := ends_pure.1 last
    cases same
    rw [ends_query_ok.1 pulled, List.append_nil, List.append_assoc, List.singleton_append]
    exact .settling gathers (ends_settle settles)

/-- A refresh that gives an outcome has gathered it, forgotten the changed files, pulled and
settled. -/
theorem Running.ended {outcome : Outcome} (running : Running events (.ok outcome)) :
    ∃ gathering settling,
      events = gathering ++ outcome.changed.flatMap removals ++ .query .pull (.ok ()) :: settling ∧
        Ends gather gathering (.ok outcome) ∧ Settling outcome settling (.ok outcome) := by
  cases running with
  | @settling gathered gathering settling _ gathers settles =>
    have same : gathered = outcome := by
      cases settles with
      | dropped records =>
        cases records
        rfl
    subst same
    exact ⟨gathering, settling, rfl, gathers, settles⟩

end Refresh

end LocaleWatch
