import LocaleWatch.Proofs.Cache.Keyed
import LocaleWatch.Proofs.Program.Transcript
import LocaleWatch.Refresh

/-!
# What the tracker asks and is told

The events of the tracker are questions to the token, to the repository and to the store. Each
operation of the cache and each lookup of a fork or a merge commit has few transcripts, and they
are written out here once: an entry that is kept is read and nothing else happens, and one that is
missing is computed and written. What the store holds after some events is what their writes and
removals make of it, and what was read in between is what it held then.

## Main results

* `ends_getUnless_ok` — the transcripts of a lookup that computes what is missing.
* `ends_mainBranch_ok`, `ends_forkWithin_ok`, `ends_mergeFilesWithin_ok` — those of the lookups that
  a refresh makes.
* `Surroundings.leads`, `Surroundings.leads_later`, `Surroundings.leads_stopped` — a run leads the
  store through its events, from any moment on through those that are left, and up to any moment
  through those that there were.
* `Surroundings.shows_getUnless` — what a lookup gives is kept then.
-/

namespace LocaleWatch

namespace Event

/-- The token was looked at. -/
abbrev isCancelled (told : Bool) : Event Tracking := ⟨Tracking.Request.isCancelled, told⟩

/-- The repository was asked. -/
abbrev query (query : Query) (told : Except RepositoryError query.Result) : Event Tracking :=
  ⟨Tracking.Request.query query, told⟩

/-- An entry was read. -/
abbrev read (category key : String) (told : Except CacheError (Option (List UInt8))) :
    Event Tracking :=
  ⟨Tracking.Request.read category key, told⟩

/-- An entry was to be written. -/
abbrev write (category key : String) (bytes : List UInt8) (told : Except CacheError Unit) :
    Event Tracking :=
  ⟨Tracking.Request.write category key bytes, told⟩

/-- An entry was to be removed. -/
abbrev delete (category key : String) (told : Except CacheError Unit) : Event Tracking :=
  ⟨Tracking.Request.delete category key, told⟩

end Event

/-- A request is no change of an entry. -/
def Tracking.Request.SparesEntry (category key : String) : Tracking.Request → Prop
  | .write other name _ | .delete other name => ¬(other = category ∧ name = key)
  | _ => True

/-- Whether a request is a removal. -/
def Tracking.Request.IsRemoval : Tracking.Request → Prop
  | .delete _ _ => True
  | _ => False

open Attempt

variable {ε α : Type} {events : List (Event Tracking)}

/-! ## Single requests -/

theorem ends_isCancelled {result : Except ε Bool} :
    Ends (Tracking.isCancelled : Attempt Tracking ε Bool) events result ↔
      ∃ told, events = [.isCancelled told] ∧ result = .ok told := by
  constructor
  · rintro (_ | ⟨⟨⟩⟩)
    exact ⟨_, rfl, rfl⟩
  · rintro ⟨told, rfl, rfl⟩
    exact .ask (.done _)

theorem ends_read {category key : String} {result : Except CacheError (Option (List UInt8))} :
    Ends (Tracking.read category key) events result ↔ events = [.read category key result] := by
  constructor
  · rintro (_ | ⟨⟨⟩⟩)
    rfl
  · rintro rfl
    exact .ask (.done _)

theorem ends_write {category key : String} {bytes : List UInt8} {result : Except CacheError Unit} :
    Ends (Tracking.write category key bytes) events result ↔
      events = [.write category key bytes result] := by
  constructor
  · rintro (_ | ⟨⟨⟩⟩)
    rfl
  · rintro rfl
    exact .ask (.done _)

theorem ends_drop {category key : String} {result : Except CacheError Unit} :
    Ends (Cache.drop category key) events result ↔ events = [.delete category key result] := by
  constructor
  · rintro (_ | ⟨⟨⟩⟩)
    rfl
  · rintro rfl
    exact .ask (.done _)

theorem ends_query {query : Query} {result : Except HistoryError query.Result} :
    Ends (Tracking.query query) events result ↔
      ∃ told, events = [.query query told] ∧ result = told.mapError .repository := by
  refine ends_mapError.trans ⟨?_, ?_⟩
  · rintro ⟨told, _ | ⟨⟨⟩⟩, rfl⟩
    exact ⟨told, rfl, rfl⟩
  · rintro ⟨told, rfl, rfl⟩
    exact ⟨told, .ask (.done _), rfl⟩

theorem ends_query_ok {query : Query} {value : query.Result} :
    Ends (Tracking.query query) events (.ok value) ↔ events = [.query query (.ok value)] := by
  rw [ends_query]
  constructor
  · rintro ⟨error | told, rfl, same⟩
    · cases same
    · cases same
      rfl
  · rintro rfl
    exact ⟨_, rfl, rfl⟩

/-! ## Operations of the cache -/

/-- The bytes of an entry, if there is one, are read as a value. -/
def Decodes [JsonForm α] (held : Option (List UInt8)) : Option α → Prop
  | none => held = none
  | some value => ∃ bytes, held = some bytes ∧ JsonForm.decode? α bytes = some value

theorem Entries.shows_iff [JsonForm α] {entries : Entries} {category key : String}
    {found : Option α} :
    entries.Shows category key found ↔ Decodes (entries category key) found := by
  cases found <;> rfl

section

variable [JsonForm α] {category key : String}

/-- How an entry is looked up, by what its bytes are read as: the token is looked at first, and
then the entry. -/
inductive Loading (category key : String) (reading : Option (Option α)) :
    List (Event Tracking) → Except CacheError (Option α) → Prop where
  | cancelled : Loading category key reading [.isCancelled true] (.error (.cancelled .read))
  | refused {error : CacheError} :
    Loading category key reading [.isCancelled false, .read category key (.error error)]
      (.error error)
  | unreadable {held : Option (List UInt8)} (reads : held.map (JsonForm.decode? α) = reading)
    (isUnreadable : reading = some none) :
    Loading category key reading [.isCancelled false, .read category key (.ok held)]
      (.error (.undecodable category key))
  | found {held : Option (List UInt8)} {found : Option α}
    (reads : held.map (JsonForm.decode? α) = reading) (isFound : reading = found.map some) :
    Loading category key reading [.isCancelled false, .read category key (.ok held)] (.ok found)

theorem decodes_iff {held : Option (List UInt8)} {found : Option α} :
    Decodes held found ↔ held.map (JsonForm.decode? α) = found.map some := by
  cases found with
  | none => simp [Decodes]
  | some value => simp [Decodes]

theorem ends_load {result : Except CacheError (Option α)}
    (ends : Ends (Cache.load α category key) events result) :
    ∃ reading, Loading category key reading events result := by
  rcases ends_bind.1 ends with ⟨error, looked, -⟩ | ⟨cancelled, _, _, rfl, looked, rest⟩
  · obtain ⟨told, -, same⟩ := ends_isCancelled.1 looked
    cases same
  · obtain ⟨told, rfl, same⟩ := ends_isCancelled.1 looked
    cases same
    cases cancelled with
    | true =>
      obtain ⟨rfl, rfl⟩ := ends_throw.1 rest
      exact ⟨none, .cancelled⟩
    | false =>
      rcases ends_bind.1 rest with ⟨error, read, rfl⟩ | ⟨held, _, _, rfl, read, last⟩
      · rw [ends_read.1 read]
        exact ⟨none, .refused⟩
      · rw [ends_read.1 read]
        cases held with
        | none =>
          obtain ⟨rfl, rfl⟩ := ends_pure.1 last
          exact ⟨none, .found rfl rfl⟩
        | some bytes =>
          refine ⟨some (JsonForm.decode? α bytes), ?_⟩
          cases decoded : JsonForm.decode? α bytes with
          | none =>
            simp only [decoded] at last
            obtain ⟨rfl, rfl⟩ := ends_throw.1 last
            exact .unreadable (congrArg some decoded) rfl
          | some value =>
            simp only [decoded] at last
            obtain ⟨rfl, rfl⟩ := ends_pure.1 last
            exact .found (congrArg some decoded) rfl

/-- How a value is written down: of a cancelled run no write is asked. -/
inductive Writing (category key : String) (value : α) :
    List (Event Tracking) → Except CacheError Unit → Prop where
  | cancelled : Writing category key value [.isCancelled true] (.error (.cancelled .write))
  | asked {result : Except CacheError Unit} :
    Writing category key value
      [.isCancelled false, .write category key (Text.bytes (JsonForm.compact value)) result] result

theorem ends_put {value : α} {result : Except CacheError Unit}
    (ends : Ends (Cache.put category key value) events result) :
    Writing category key value events result := by
  rcases ends_bind.1 ends with ⟨error, looked, -⟩ | ⟨cancelled, _, _, rfl, looked, rest⟩
  · obtain ⟨told, -, same⟩ := ends_isCancelled.1 looked
    cases same
  · obtain ⟨told, rfl, same⟩ := ends_isCancelled.1 looked
    cases same
    cases cancelled with
    | true =>
      obtain ⟨rfl, rfl⟩ := ends_throw.1 rest
      exact .cancelled
    | false =>
      rw [ends_write.1 rest]
      exact .asked

theorem ends_put_ok {value : α} (ends : Ends (Cache.put category key value) events (.ok ())) :
    events = [.isCancelled false,
      .write category key (Text.bytes (JsonForm.compact value)) (.ok ())] := by
  cases ends_put ends with
  | asked => rfl

/-- How a lookup goes that computes what is missing, by what the entry is read as. -/
inductive Lookup (isInvalid : α → Bool) (category key : String) (compute : History α)
    (reading : Option (Option α)) : List (Event Tracking) → Except HistoryError α → Prop where
  | unread {opening : List (Event Tracking)} {error : CacheError}
    (loading : Loading category key reading opening (.error error)) :
    Lookup isInvalid category key compute reading opening (.error (.cache error))
  | kept {opening : List (Event Tracking)} {value : α}
    (loading : Loading category key reading opening (.ok (some value)))
    (valid : isInvalid value = false) :
    Lookup isInvalid category key compute reading opening (.ok value)
  | uncomputed {opening computing : List (Event Tracking)} {found : Option α} {error : HistoryError}
    (loading : Loading category key reading opening (.ok found))
    (invalid : ∀ value, found = some value → isInvalid value = true)
    (computes : Ends compute computing (.error error)) :
    Lookup isInvalid category key compute reading (opening ++ computing) (.error error)
  | unwritten {opening computing closing : List (Event Tracking)} {found : Option α} {value : α}
    {error : CacheError} (loading : Loading category key reading opening (.ok found))
    (invalid : ∀ value, found = some value → isInvalid value = true)
    (computes : Ends compute computing (.ok value))
    (writing : Writing category key value closing (.error error)) :
    Lookup isInvalid category key compute reading (opening ++ (computing ++ closing))
      (.error (.cache error))
  | computed {opening computing closing : List (Event Tracking)} {found : Option α} {value : α}
    (loading : Loading category key reading opening (.ok found))
    (invalid : ∀ value, found = some value → isInvalid value = true)
    (computes : Ends compute computing (.ok value))
    (writing : Writing category key value closing (.ok ())) :
    Lookup isInvalid category key compute reading (opening ++ (computing ++ closing)) (.ok value)

private theorem lookup_missing {isInvalid : α → Bool} {compute : History α}
    {reading : Option (Option α)} {found : Option α} {opening computing : List (Event Tracking)}
    {result : Except HistoryError α}
    (loading : Loading category key reading opening (.ok found))
    (invalid : ∀ value, found = some value → isInvalid value = true)
    (ends : Ends (do
        let value ← compute
        Attempt.mapError HistoryError.cache (Cache.put category key value)
        return value) computing result) :
    Lookup isInvalid category key compute reading (opening ++ computing) result := by
  rcases ends_bind.1 ends with ⟨error, fails, rfl⟩ | ⟨value, _, _, rfl, computes, rest⟩
  · exact .uncomputed loading invalid fails
  · rcases ends_bind.1 rest with ⟨error, fails, rfl⟩ | ⟨⟨⟩, _, _, rfl, written, last⟩
    · obtain ⟨told, wrote, same⟩ := ends_mapError.1 fails
      cases told with
      | ok done => cases same
      | error reason =>
        cases same
        exact .unwritten loading invalid computes (ends_put wrote)
    · obtain ⟨rfl, rfl⟩ := ends_pure.1 last
      rw [List.append_nil]
      exact .computed loading invalid computes (ends_put (ends_mapError_ok.1 written))

/-- A lookup goes in one of five ways. -/
theorem ends_getUnless {isInvalid : α → Bool} {compute : History α} {result : Except HistoryError α}
    (ends : Ends (Cache.getUnless isInvalid category key compute) events result) :
    ∃ reading, Lookup isInvalid category key compute reading events result := by
  rcases ends_bind.1 ends with ⟨error, failed, rfl⟩ | ⟨found, _, _, rfl, loaded, rest⟩
  · obtain ⟨told, read, same⟩ := ends_mapError.1 failed
    obtain ⟨reading, loading⟩ := ends_load read
    cases told with
    | ok found => cases same
    | error reason =>
      cases same
      exact ⟨reading, .unread loading⟩
  · obtain ⟨reading, loading⟩ := ends_load (ends_mapError_ok.1 loaded)
    refine ⟨reading, ?_⟩
    cases found with
    | none => exact lookup_missing loading nofun rest
    | some old =>
      cases isInvalidOld : isInvalid old with
      | true =>
        simp only [isInvalidOld] at rest
        refine lookup_missing loading (fun value same => ?_) rest
        cases same
        exact isInvalidOld
      | false =>
        simp only [isInvalidOld] at rest
        obtain ⟨rfl, rfl⟩ := ends_pure.1 rest
        rw [List.append_nil]
        exact .kept loading isInvalidOld

/-- A lookup that gives a value finds a valid entry, and nothing else happens; or it finds none, and
what is computed is written. -/
theorem ends_getUnless_ok {isInvalid : α → Bool} {compute : History α} {value : α}
    (ends : Ends (Cache.getUnless isInvalid category key compute) events (.ok value)) :
    (∃ held, events = [.isCancelled false, .read category key (.ok held)] ∧
      Decodes held (some value)) ∨
    ∃ held computing, events =
        [.isCancelled false, .read category key (.ok held)] ++ (computing ++
          [.isCancelled false,
            .write category key (Text.bytes (JsonForm.compact value)) (.ok ())]) ∧
      (held = none ∨ ∃ old, Decodes held (some old) ∧ isInvalid old = true) ∧
      Ends compute computing (.ok value) := by
  obtain ⟨reading, lookup⟩ := ends_getUnless ends
  cases lookup with
  | kept loading valid =>
    cases loading with
    | found reads isFound => exact .inl ⟨_, rfl, decodes_iff.2 (reads.trans isFound)⟩
  | @computed _ computing _ found _ loading invalid computes writing =>
    cases writing
    cases loading with
    | found reads isFound =>
      have decodes : Decodes _ found := decodes_iff.2 (reads.trans isFound)
      refine .inr ⟨_, computing, rfl, ?_, computes⟩
      cases found with
      | none => exact .inl decodes
      | some old => exact .inr ⟨old, decodes, invalid old rfl⟩

/-- A lookup of an entry that is never invalid. -/
theorem ends_get_ok {compute : History α} {value : α}
    (ends : Ends (Cache.get category key compute) events (.ok value)) :
    (∃ held, events = [.isCancelled false, .read category key (.ok held)] ∧
      Decodes held (some value)) ∨
    ∃ computing, events =
        [.isCancelled false, .read category key (.ok none)] ++ (computing ++
          [.isCancelled false,
            .write category key (Text.bytes (JsonForm.compact value)) (.ok ())]) ∧
      Ends compute computing (.ok value) := by
  rcases ends_getUnless_ok ends with found | ⟨held, computing, rfl, rfl | ⟨_, -, ⟨⟩⟩, computed⟩
  · exact .inl found
  · exact .inr ⟨computing, rfl, computed⟩

end

/-! ## Lookups -/

/-- How the main branch is looked up. -/
inductive MainLookup : List (Event Tracking) → MainBranch → Prop where
  | kept {held : Option (List UInt8)} {commits : List Commit}
    (decodes : Decodes held (some commits)) :
    MainLookup [.isCancelled false, .read History.mainBranchCategory "" (.ok held)] ⟨commits⟩
  | asked {commits : List Commit} :
    MainLookup [.isCancelled false, .read History.mainBranchCategory "" (.ok none),
      .query .mainBranch (.ok commits), .isCancelled false,
      .write History.mainBranchCategory "" (Text.bytes (JsonForm.compact commits)) (.ok ())]
      ⟨commits⟩

theorem ends_mainBranch_ok {main : MainBranch}
    (ends : Ends History.mainBranch events (.ok main)) : MainLookup events main := by
  obtain ⟨commits, _, _, rfl, lookup, rest⟩ := ends_bind_ok.1 ends
  obtain ⟨rfl, same⟩ := ends_pure.1 rest
  cases same
  rw [List.append_nil]
  rcases ends_get_ok lookup with ⟨held, rfl, decodes⟩ | ⟨computing, rfl, computed⟩
  · exact .kept decodes
  · rw [ends_query_ok.1 computed]
    exact .asked

/-- How the fork commit of a commit is looked up. -/
inductive ForkLookup (main : MainBranch) (commit : CommitId) :
    List (Event Tracking) → Option Commit → Prop where
  | on (isOn : main.contains commit = true) : ForkLookup main commit [] none
  | kept {held : Option (List UInt8)} {value : Option Commit} (off : main.contains commit = false)
    (decodes : Decodes held (some value)) :
    ForkLookup main commit
      [.isCancelled false, .read History.forkCategory commit.text (.ok held)] value
  | asked {ancestors : List Commit} {fork : Commit} (off : main.contains commit = false)
    (first : main.firstOn? ancestors = some fork) :
    ForkLookup main commit [.isCancelled false, .read History.forkCategory commit.text (.ok none),
      .query (.ancestors commit) (.ok ancestors), .isCancelled false,
      .write History.forkCategory commit.text (Text.bytes (JsonForm.compact (some fork))) (.ok ())]
      (some fork)

theorem ends_forkWithin_ok {main : MainBranch} {commit : CommitId} {value : Option Commit}
    (ends : Ends (History.forkWithin main commit) events (.ok value)) :
    ForkLookup main commit events value := by
  unfold History.forkWithin at ends
  cases isOn : main.contains commit with
  | true =>
    rw [isOn] at ends
    obtain ⟨rfl, same⟩ := ends_pure.1 ends
    cases same
    exact .on isOn
  | false =>
    rw [isOn] at ends
    rcases ends_get_ok ends with ⟨held, rfl, decodes⟩ | ⟨computing, rfl, computed⟩
    · exact .kept isOn decodes
    · obtain ⟨ancestors, _, _, rfl, asked, found⟩ := ends_bind_ok.1 computed
      rw [ends_query_ok.1 asked]
      cases first : main.firstOn? ancestors with
      | none =>
        simp only [first] at found
        cases (ends_throw.1 found).2
      | some fork =>
        simp only [first] at found
        obtain ⟨rfl, same⟩ := ends_pure.1 found
        cases same
        exact .asked isOn first

/-- How the files that a merge brought in are looked up. -/
inductive MergeFilesLookup (main : MainBranch) (merge : CommitId) :
    List (Event Tracking) → List String → Prop where
  | plain {parents : List CommitId} (few : parents.length ≤ 1) :
    MergeFilesLookup main merge [.query (.parents merge) (.ok parents)] []
  | branch {first second branch : CommitId} {fork : Commit} {forking : List (Event Tracking)}
    {files : List String} (off : [first, second].filter (!main.contains ·) = [branch])
    (lookup : ForkLookup main branch forking (some fork)) :
    MergeFilesLookup main merge
      (.query (.parents merge) (.ok [first, second]) ::
        (forking ++ [.query (.filesBetween fork.id branch) (.ok files)])) files

theorem ends_mergeFilesWithin_ok {main : MainBranch} {merge : CommitId} {files : List String}
    (ends : Ends (History.mergeFilesWithin main merge) events (.ok files)) :
    MergeFilesLookup main merge events files := by
  obtain ⟨parents, _, _, rfl, asked, rest⟩ := ends_bind_ok.1 ends
  rw [ends_query_ok.1 asked]
  split at rest
  · obtain ⟨rfl, same⟩ := ends_pure.1 rest
    cases same
    exact .plain (Nat.zero_le 1)
  · obtain ⟨rfl, same⟩ := ends_pure.1 rest
    cases same
    exact .plain (Nat.le_refl 1)
  · split at rest
    · next branch off =>
      obtain ⟨fork, forking, _, rfl, lookup, last⟩ := ends_bind_ok.1 rest
      cases fork with
      | none => cases (ends_throw.1 last).2
      | some fork =>
        rw [ends_query_ok.1 last]
        exact .branch off (ends_forkWithin_ok lookup)
    · cases (ends_throw.1 rest).2
  · cases (ends_throw.1 rest).2

/-! ## What is held in between -/

namespace Entries

/-- The entries after an event: a write and a removal that were not refused change them. -/
def next (entries : Entries) : Event Tracking → Entries
  | ⟨.write category key bytes, .ok ()⟩ => entries.put category key bytes
  | ⟨.delete category key, .ok ()⟩ => entries.remove category key
  | _ => entries

/-- What was read, if an event is a reading, is what is held. -/
def Tells (entries : Entries) : Event Tracking → Prop
  | ⟨.read category key, .ok found⟩ => entries category key = found
  | _ => True

/-- Some events lead from one store to another: what they read is what is held then. -/
def Leads : Entries → List (Event Tracking) → Entries → Prop
  | entries, [], last => last = entries
  | entries, event :: events, last =>
    entries.Tells event ∧ Leads (entries.next event) events last

theorem leads_cons {entries between last : Entries} {event : Event Tracking}
    {events : List (Event Tracking)} (tells : entries.Tells event)
    (next : between = entries.next event) (leads : between.Leads events last) :
    entries.Leads (event :: events) last :=
  ⟨tells, next ▸ leads⟩

theorem leads_append {entries last : Entries} {before after : List (Event Tracking)} :
    entries.Leads (before ++ after) last ↔
      ∃ between, entries.Leads before between ∧ between.Leads after last := by
  induction before generalizing entries with
  | nil =>
    constructor
    · intro leads
      exact ⟨entries, rfl, leads⟩
    · rintro ⟨_, rfl, leads⟩
      exact leads
  | cons event events ih =>
    constructor
    · rintro ⟨tells, leads⟩
      obtain ⟨between, first, second⟩ := ih.1 leads
      exact ⟨between, ⟨tells, first⟩, second⟩
    · rintro ⟨between, ⟨tells, first⟩, second⟩
      exact ⟨tells, ih.2 ⟨between, first, second⟩⟩

/-- Events that spare the store leave it as it was. -/
theorem leads_spared {entries last : Entries} {events : List (Event Tracking)}
    (spares : ∀ event ∈ events, event.request.sparesEntries = true)
    (leads : entries.Leads events last) : last = entries := by
  induction events generalizing entries with
  | nil => exact leads
  | cons event events ih =>
    obtain ⟨spared, others⟩ := List.forall_mem_cons.1 spares
    have same : entries.next event = entries := by
      obtain ⟨request, answer⟩ := event
      cases request with
      | write category key bytes => cases spared
      | delete category key => cases spared
      | _ => rfl
    exact (ih others leads.2).trans same

/-- Events that spare one entry leave it as it was. -/
theorem leads_entrySpared {entries last : Entries} {events : List (Event Tracking)}
    {category key : String} (spares : ∀ event ∈ events, event.request.SparesEntry category key)
    (leads : entries.Leads events last) : last category key = entries category key := by
  induction events generalizing entries with
  | nil => exact congrFun (congrFun leads category) key
  | cons event events ih =>
    obtain ⟨spared, others⟩ := List.forall_mem_cons.1 spares
    refine (ih others leads.2).trans ?_
    obtain ⟨request, answer⟩ := event
    cases request with
    | write other name bytes =>
      cases answer with
      | error error => rfl
      | ok done => exact put_of_ne fun same => spared ⟨same.1.symm, same.2.symm⟩
    | delete other name =>
      cases answer with
      | error error => rfl
      | ok done => exact remove_of_ne fun same => spared ⟨same.1.symm, same.2.symm⟩
    | _ => rfl

/-- Where nothing is written, an entry is as it was or is gone. -/
theorem leads_unwritten {entries last : Entries} {events : List (Event Tracking)}
    (unwritten : ∀ event ∈ events,
      event.request.sparesEntries = true ∨ event.request.IsRemoval)
    (leads : entries.Leads events last) (category key : String) :
    last category key = entries category key ∨ last category key = none := by
  induction events generalizing entries with
  | nil => exact .inl (congrFun (congrFun leads category) key)
  | cons event events ih =>
    obtain ⟨first, others⟩ := List.forall_mem_cons.1 unwritten
    have next : entries.next event category key = entries category key ∨
        entries.next event category key = none := by
      obtain ⟨request, answer⟩ := event
      cases request with
      | write category key bytes =>
        rcases first with spares | isRemoval
        · cases spares
        · cases isRemoval
      | delete other name =>
        cases answer with
        | error error => exact .inl rfl
        | ok done => exact remove_cases
      | _ => exact .inl rfl
    rcases ih others leads.2 with same | gone
    · rw [same]
      exact next
    · exact .inr gone

end Entries

namespace Surroundings

variable {σ : Type} (S : Surroundings σ)

/-- What an attempt asks and is told. -/
def trace (attempt : Attempt Tracking ε α) (state : σ) : List (Event Tracking) :=
  attempt.run.trace S.handler state

variable {S}

theorem ends_trace (attempt : Attempt Tracking ε α) (state : σ) :
    Ends attempt (S.trace attempt state) (S.result attempt state) :=
  Program.transcript_trace S.handler attempt.run state

/-- The events of a sequence whose first part gives a value. -/
theorem trace_bind_ok {β : Type} {attempt : Attempt Tracking ε α}
    {rest : α → Attempt Tracking ε β} {state : σ} {value : α}
    (told : S.result attempt state = .ok value) :
    S.trace (attempt >>= rest) state =
      S.trace attempt state ++ S.trace (rest value) (S.after attempt state) := by
  have whole : S.trace (attempt >>= rest) state = S.trace attempt state ++
      (ExceptT.bindCont rest (S.result attempt state)).trace S.handler (S.after attempt state) :=
    Program.trace_bind S.handler attempt.run _ state
  rw [whole, told]
  rfl

/-- The events of a sequence whose first part fails. -/
theorem trace_bind_error {β : Type} {attempt : Attempt Tracking ε α}
    {rest : α → Attempt Tracking ε β} {state : σ} {error : ε}
    (failed : S.result attempt state = .error error) :
    S.trace (attempt >>= rest) state = S.trace attempt state :=
  (run_bind_error failed).2

private theorem entries_next (request : Tracking.Request) (state : σ) :
    S.entries (S.handler request state).2 =
      (S.entries state).next ⟨request, (S.handler request state).1⟩ := by
  cases request with
  | write category key bytes =>
    cases told : (S.handler (.write category key bytes) state).1 with
    | ok done =>
      exact (S.entries_write told)
    | error error => exact S.entries_write_refused told
  | delete category key =>
    cases told : (S.handler (.delete category key) state).1 with
    | ok done => exact (S.entries_delete told)
    | error error => exact S.entries_delete_refused told
  | _ => exact S.entries_spared rfl

private theorem tells_answer (request : Tracking.Request) (state : σ) :
    (S.entries state).Tells ⟨request, (S.handler request state).1⟩ := by
  cases request with
  | read category key =>
    cases told : (S.handler (.read category key) state).1 with
    | ok found => exact S.entry_of_read told
    | error error => trivial
  | _ => trivial

private theorem leads_program (program : Program Tracking α) (state : σ) :
    (S.entries state).Leads (program.trace S.handler state)
      (S.entries (program.run S.handler state).2) := by
  induction program generalizing state with
  | done value => rfl
  | ask request next ih =>
    exact Entries.leads_cons (tells_answer request state) (entries_next request state) (ih _ _)

/-- A run leads the store through its events. -/
theorem leads (attempt : Attempt Tracking ε α) (state : σ) :
    (S.entries state).Leads (S.trace attempt state) (S.entries (S.after attempt state)) :=
  leads_program attempt.run state

/-- From any moment on a run leads the store through the events that are left. -/
theorem leads_later (attempt : Attempt Tracking ε α) (count : Nat) (state : σ) :
    (S.entries (S.stopped attempt count state)).Leads ((S.trace attempt state).drop count)
      (S.entries (S.after attempt state)) := by
  unfold stopped trace after
  generalize attempt.run = program
  induction program generalizing count state with
  | done value =>
    cases count <;> rfl
  | ask request next ih =>
    cases count with
    | zero => exact leads_program (.ask request next) state
    | succ count => exact ih _ count _

/-- Up to any moment a run leads the store through the events that there were. -/
theorem leads_stopped (attempt : Attempt Tracking ε α) (count : Nat) (state : σ) :
    (S.entries state).Leads ((S.trace attempt state).take count)
      (S.entries (S.stopped attempt count state)) := by
  unfold stopped trace
  generalize attempt.run = program
  induction program generalizing count state with
  | done value =>
    cases count <;> rfl
  | ask request next ih =>
    cases count with
    | zero => rfl
    | succ count =>
      exact Entries.leads_cons (tells_answer request state) (entries_next request state)
        (ih _ count _)

/-- Where the answer to a query never changes, what is told in the course of an attempt is the
answer that there was at its start. -/
theorem answer_of_trace {concern : Query → Prop} (fixed : S.SteadyBut (fun _ => False) concern)
    {query : Query} (concerned : concern query) {value : query.Result}
    {attempt : Attempt Tracking ε α} {state : σ}
    (told : .query query (.ok value) ∈ S.trace attempt state) :
    S.answer state query = .ok value := by
  unfold trace at told
  generalize attempt.run = program at told
  induction program generalizing state with
  | done value => cases told
  | ask request next ih =>
    rcases List.mem_cons.1 told with same | later
    · have asked : request = .query query := (congrArg Event.request same).symm
      subst asked
      exact S.answer_of_ok (eq_of_heq (Event.mk.inj same).2).symm
    · exact (fixed request state query concerned nofun).symm.trans (ih _ later)

/-- What a lookup gives is kept then. -/
theorem shows_getUnless [JsonForm α] [FaithfulForm α] {isInvalid : α → Bool}
    {category key : String} {compute : History α} {value : α} {state : σ}
    (told : S.result (Cache.getUnless isInvalid category key compute) state = .ok value) :
    (S.entries (S.after (Cache.getUnless isInvalid category key compute) state)).Shows category key
      (some value) := by
  have leads := S.leads (Cache.getUnless isInvalid category key compute) state
  have ends := S.ends_trace (Cache.getUnless isInvalid category key compute) state
  rw [told] at ends
  rcases ends_getUnless_ok ends with ⟨held, same, decodes⟩ | ⟨held, computing, same, -, -⟩
  · rw [same] at leads
    obtain ⟨-, held', last⟩ := leads
    rw [last]
    obtain ⟨bytes, rfl, decoded⟩ := decodes
    exact ⟨bytes, held', decoded⟩
  · rw [same, Entries.leads_append] at leads
    obtain ⟨between, -, rest⟩ := leads
    obtain ⟨before, -, -, -, last⟩ := Entries.leads_append.1 rest
    rw [last]
    exact Entries.shows_put value

end Surroundings

end LocaleWatch
