import LocaleWatch.Proofs.History.Attribution

/-!
# The start points of a file

All start points of a file share one entry, and every question about one of them reads the entry,
adds an answer and writes the entry back. No answer is lost that way: as long as the file is not
forgotten, the entry holds for each start point the answer that was given first, and nothing else.

Which spelling of the path asks does not matter, and neither do questions about other files in
between, refusals, or stops. What goes on in between is any attempt that spares the start points: it
asks for no later commits of the file and leaves the entry alone. The repository may change its
answers as it likes.

## Main results

* `ends_commitsAfter` — the transcripts of a question about a start point, errors included.
* `Seeking.among`, `Seeking.recalls` — what such a question gives and leaves.
* `Surroundings.Sought.records` — after any questions the entry is the record of the answers.
* `Surroundings.starts_remembered` — no start point is lost or mixed up.
-/

namespace LocaleWatch

open Attempt History

variable {events : List (Event Tracking)} {entries last : Entries} {path : Path} {start : CommitId}
  {key : String}

/-! ## The record of the answers -/

/-- The questions about start points of a file with what they gave, in the order in which they were
asked. -/
abbrev StartLog : Type := List (CommitId × Except HistoryError (List Commit))

namespace StartLog

variable {log : StartLog} {commits : List Commit}

/-- The first answer that a question about a start point gave. -/
def first? (log : StartLog) (start : CommitId) : Option (List Commit) :=
  log.findSome? fun (asked, result) => if asked = start then result.toOption else none

/-- A later question does not count where an earlier one gave an answer, or if it gives none. -/
theorem first?_append (start other : CommitId) (result : Except HistoryError (List Commit)) :
    first? (log ++ [(start, result)]) other =
      (first? log other).or (if start = other then result.toOption else none) := by
  simp [first?, List.findSome?_append]

/-- What fails is no answer. -/
theorem first?_of_error (error : HistoryError) (other : CommitId) :
    first? (log ++ [(start, .error error)]) other = first? log other := by
  rw [first?_append]
  split <;> exact Option.or_none

/-- A start point that was answered keeps its answer. -/
theorem first?_of_known (known : first? log start = some commits)
    (result : Except HistoryError (List Commit)) (other : CommitId) :
    first? (log ++ [(start, result)]) other = first? log other := by
  rw [first?_append]
  split
  · next same => rw [← same, known, Option.some_or]
  · exact Option.or_none

/-- One that was not is answered now. -/
theorem first?_of_unknown (unknown : first? log start = none) (other : CommitId) :
    first? (log ++ [(start, .ok commits)]) other =
      if other = start then some commits else first? log other := by
  rw [first?_append]
  by_cases same : other = start
  · rw [same, unknown, if_pos rfl, if_pos rfl]
    rfl
  · rw [if_neg same, if_neg (Ne.symm same), Option.or_none]

end StartLog

/-- The entry of a file is the record: there is none before the first answer, and then it has the
start points that were answered, each with its answer. -/
structure Entries.Records (entries : Entries) (key : String) (log : StartLog) : Prop where
  nothing : (∀ start, log.first? start = none) → entries commitsAfterCategory key = none
  answers : ∀ start commits, log.first? start = some commits →
    ∃ starts : CommitsByStart, entries.Shows commitsAfterCategory key (some starts) ∧
      ∀ other, starts.get? other = log.first? other

namespace Entries.Records

variable {log : StartLog}

/-- The entry can be read, and what it holds for a start point is what was answered. -/
theorem shows (records : entries.Records key log) :
    ∃ kept : Option CommitsByStart, entries.Shows commitsAfterCategory key kept ∧
      ∀ start, (kept.getD .empty).get? start = log.first? start := by
  by_cases nothing : ∀ start, log.first? start = none
  · exact ⟨none, records.nothing nothing, fun start => (nothing start).symm⟩
  · obtain ⟨start, isAnswered⟩ := not_forall.1 nothing
    obtain ⟨commits, same⟩ := Option.ne_none_iff_exists'.1 isAnswered
    obtain ⟨starts, shown, answers⟩ := records.answers start commits same
    exact ⟨some starts, shown, answers⟩

/-- So whatever the entry shows is what was answered. -/
theorem get?_eq {kept : Option CommitsByStart} (records : entries.Records key log)
    (shown : entries.Shows commitsAfterCategory key kept) (start : CommitId) :
    (kept.getD .empty).get? start = log.first? start := by
  obtain ⟨recorded, isRecorded, answers⟩ := records.shows
  rw [shown.unique isRecorded, answers]

/-- The record is of one entry and of the answers. -/
theorem congr {other : Entries} {more : StartLog} (records : entries.Records key log)
    (same : other commitsAfterCategory key = entries commitsAfterCategory key)
    (still : ∀ start, more.first? start = log.first? start) : other.Records key more where
  nothing nothing :=
    same.trans (records.nothing fun start => (still start).symm.trans (nothing start))
  answers start commits isAnswered := by
    obtain ⟨starts, shown, answers⟩ := records.answers start commits (still start ▸ isAnswered)
    exact ⟨starts, shown.congr same, fun other => (answers other).trans (still other).symm⟩

/-- An answer that is added to what was read is added to the record. -/
theorem put {kept : CommitsByStart} {commits : List Commit}
    (answers : ∀ other, kept.get? other = log.first? other) (unknown : log.first? start = none) :
    (entries.put commitsAfterCategory key
      (Text.bytes (JsonForm.compact (kept.insert start commits)))).Records key
        (log ++ [(start, .ok commits)]) := by
  have noted (other : CommitId) : (kept.insert start commits).get? other =
      StartLog.first? (log ++ [(start, .ok commits)]) other := by
    rw [StartLog.first?_of_unknown unknown]
    split
    · next same => rw [same, CommitsByStart.get?_insert_self]
    · next other => rw [CommitsByStart.get?_insert_of_ne _ other, answers]
  refine ⟨fun nothing => ?_, fun _ _ _ => ⟨_, Entries.shows_put _, noted⟩⟩
  have none := (noted start).trans (nothing start)
  rw [CommitsByStart.get?_insert_self] at none
  contradiction

end Entries.Records

/-! ## One question -/

section

variable {α : Type} [JsonForm α] {category : String} {reading : Option (Option α)}
  {query : Query} {told : Except RepositoryError query.Result}

/-- Reading an entry asks the repository nothing. -/
theorem Loading.query_not_mem {found : Except CacheError (Option α)}
    (loading : Loading category key reading events found) : .query query told ∉ events := by
  cases loading with
  | cancelled | refused | unreadable | found => nofun

/-- Nor does writing one. -/
theorem Writing.query_not_mem {value : α} {written : Except CacheError Unit}
    (writing : Writing category key value events written) : .query query told ∉ events := by
  cases writing with
  | cancelled | asked => nofun

/-- Reading an entry changes nothing. -/
theorem Loading.spares {found : Except CacheError (Option α)}
    (loading : Loading category key reading events found) :
    ∀ event ∈ events, event.request.sparesEntries = true := by
  cases loading with
  | cancelled | refused | unreadable | found => simp [Tracking.Request.sparesEntries]

/-- An entry that shows something, or nothing, can be read. -/
theorem Entries.Shows.readable {found : Option α} (shown : entries.Shows category key found) :
    (entries category key).map (JsonForm.decode? α) ≠ some none := by
  rw [decodes_iff.1 (Entries.shows_iff.1 shown)]
  cases found <;> nofun

end

/-- How a question about a start point goes, by what the entry is read as. -/
inductive Seeking (path : Path) (start : CommitId) (reading : Option (Option CommitsByStart)) :
    List (Event Tracking) → Except HistoryError (List Commit) → Prop where
  | unread {opening : List (Event Tracking)} {error : CacheError}
    (loading : Loading commitsAfterCategory path.key reading opening (.error error)) :
    Seeking path start reading opening (.error (.cache error))
  | kept {opening : List (Event Tracking)} {kept : Option CommitsByStart} {commits : List Commit}
    (loading : Loading commitsAfterCategory path.key reading opening (.ok kept))
    (known : (kept.getD .empty).get? start = some commits) :
    Seeking path start reading opening (.ok commits)
  | untold {opening : List (Event Tracking)} {kept : Option CommitsByStart}
    {error : RepositoryError}
    (loading : Loading commitsAfterCategory path.key reading opening (.ok kept))
    (unknown : (kept.getD .empty).get? start = none) :
    Seeking path start reading (opening ++ [.query (.commitsAfter path start) (.error error)])
      (.error (.repository error))
  | told {opening closing : List (Event Tracking)} {kept : Option CommitsByStart}
    {commits : List Commit} {written : Except CacheError Unit}
    (loading : Loading commitsAfterCategory path.key reading opening (.ok kept))
    (unknown : (kept.getD .empty).get? start = none)
    (writing : Writing commitsAfterCategory path.key ((kept.getD .empty).insert start commits)
      closing written) :
    Seeking path start reading
      (opening ++ (.query (.commitsAfter path start) (.ok commits) :: closing))
      ((written.map fun _ => commits).mapError .cache)

/-- A question about a start point goes in one of these ways. -/
theorem ends_commitsAfter {result : Except HistoryError (List Commit)}
    (ends : Ends (commitsAfter path start) events result) :
    ∃ reading, Seeking path start reading events result := by
  rcases ends_bind.1 ends with ⟨error, failed, rfl⟩ | ⟨kept, opening, _, rfl, loaded, rest⟩
  · obtain ⟨told, read, same⟩ := ends_mapError.1 failed
    obtain ⟨reading, loading⟩ := ends_load read
    cases told with
    | ok found => cases same
    | error reason =>
      cases same
      exact ⟨reading, .unread loading⟩
  · obtain ⟨reading, loading⟩ := ends_load (ends_mapError_ok.1 loaded)
    refine ⟨reading, ?_⟩
    cases known : (kept.getD .empty).get? start with
    | some commits =>
      simp only [known] at rest
      obtain ⟨rfl, rfl⟩ := ends_pure.1 rest
      rw [List.append_nil]
      exact .kept loading known
    | none =>
      simp only [known] at rest
      rcases ends_bind.1 rest with ⟨error, failed, rfl⟩ | ⟨commits, _, _, rfl, asked, adds⟩
      · obtain ⟨told, rfl, same⟩ := ends_query.1 failed
        cases told with
        | ok commits => cases same
        | error reason =>
          cases same
          exact .untold loading known
      · rw [ends_query_ok.1 asked]
        rcases ends_bind.1 adds with ⟨error, failed, rfl⟩ | ⟨⟨⟩, closing, _, rfl, wrote, last⟩
        · obtain ⟨written, puts, same⟩ := ends_mapError.1 failed
          cases written with
          | ok done => cases same
          | error reason =>
            cases same
            have seeking := Seeking.told loading known (ends_put puts)
            exact seeking
        · obtain ⟨rfl, rfl⟩ := ends_pure.1 last
          rw [List.append_nil]
          have seeking := Seeking.told loading known (ends_put (ends_mapError_ok.1 wrote))
          exact seeking

namespace Seeking

variable {reading : Option (Option CommitsByStart)} {result : Except HistoryError (List Commit)}

/-- The repository is asked for nothing but this start point, and not if the entry has it. -/
theorem of_query_mem (seeking : Seeking path start reading events result) {query : Query}
    {told : Except RepositoryError query.Result} (mem : .query query told ∈ events) :
    query = .commitsAfter path start ∧
      ∃ kept : Option CommitsByStart, reading = kept.map some ∧
        (kept.getD .empty).get? start = none := by
  cases seeking with
  | unread loading => exact absurd mem loading.query_not_mem
  | kept loading known => exact absurd mem loading.query_not_mem
  | untold loading unknown =>
    rcases List.mem_append.1 mem with mem | mem
    · exact absurd mem loading.query_not_mem
    · cases List.mem_singleton.1 mem
      exact ⟨rfl, _, loading.reading_eq, unknown⟩
  | told loading unknown writing =>
    rcases List.mem_append.1 mem with mem | mem
    · exact absurd mem loading.query_not_mem
    · rcases List.mem_cons.1 mem with same | mem
      · cases same
        exact ⟨rfl, _, loading.reading_eq, unknown⟩
      · exact absurd mem writing.query_not_mem

/-- If the entry can be read, only refusals make a question fail. -/
theorem refuses {error : HistoryError} (seeking : Seeking path start reading events (.error error))
    (readable : reading ≠ some none) : Refuses events := by
  generalize failed : (Except.error error : Except HistoryError (List Commit)) = result at seeking
  cases seeking with
  | unread loading => exact loading.refuses readable
  | kept loading known => cases failed
  | untold loading unknown => exact ⟨_, List.mem_append_right _ List.mem_cons_self, rfl⟩
  | @told _ _ _ _ written loading unknown writing =>
    cases written with
    | ok done => cases failed
    | error reason =>
      exact writing.refuses.mono
        (List.subset_append_of_subset_right _ (List.subset_cons_self _ _))

/-- A question goes by what the entry holds. What it gives was held there, or the repository tells
it and it is added there; if it fails, the entries are as before. -/
theorem among (seeking : Seeking path start reading events result)
    (leads : entries.Leads events last) :
    Seeking path start
        ((entries commitsAfterCategory path.key).map (JsonForm.decode? CommitsByStart)) events
        result ∧
      match result with
      | .ok commits => ∃ kept : Option CommitsByStart,
          entries.Shows commitsAfterCategory path.key kept ∧
          (((kept.getD .empty).get? start = some commits ∧ last = entries) ∨
            ((kept.getD .empty).get? start = none ∧
              .query (.commitsAfter path start) (.ok commits) ∈ events ∧
              last = entries.put commitsAfterCategory path.key
                (Text.bytes (JsonForm.compact ((kept.getD .empty).insert start commits)))))
      | .error _ => last = entries := by
  cases seeking with
  | unread loading =>
    obtain ⟨loads, same⟩ := loading.among leads
    exact ⟨.unread loads, same⟩
  | @kept _ kept _ loading known =>
    obtain ⟨loads, same⟩ := loading.among leads
    have shown := Entries.shows_iff.2 (decodes_iff.2 loads.reading_eq)
    exact ⟨.kept loads known, kept, shown, .inl ⟨known, same⟩⟩
  | untold loading unknown =>
    obtain ⟨_, first, -, second⟩ := Entries.leads_append.1 leads
    obtain ⟨loads, rfl⟩ := loading.among first
    exact ⟨.untold loads unknown, second⟩
  | @told _ _ kept commits written loading unknown writing =>
    obtain ⟨_, first, -, second⟩ := Entries.leads_append.1 leads
    obtain ⟨loads, rfl⟩ := loading.among first
    refine ⟨.told loads unknown writing, ?_⟩
    cases written with
    | error error => exact writing.leads second
    | ok done =>
      have shown := Entries.shows_iff.2 (decodes_iff.2 loads.reading_eq)
      refine ⟨kept, shown, .inr ⟨unknown, ?_, writing.leads second⟩⟩
      exact List.mem_append_right _ List.mem_cons_self

/-- Only the last request may change an entry. -/
theorem spares_early (seeking : Seeking path start reading events result) :
    ∀ event ∈ events.dropLast, event.request.sparesEntries = true := by
  cases seeking with
  | unread loading | kept loading known =>
    exact fun event mem => loading.spares event (List.dropLast_subset _ mem)
  | untold loading unknown =>
    rw [List.dropLast_concat]
    exact loading.spares
  | told loading unknown writing =>
    rw [List.dropLast_append_of_ne_nil (List.cons_ne_nil _ _)]
    intro event mem
    rcases List.mem_append.1 mem with mem | mem
    · exact loading.spares event mem
    · cases writing with
      | cancelled =>
        cases List.mem_singleton.1 mem
        rfl
      | asked =>
        rcases List.mem_cons.1 mem with rfl | mem
        · rfl
        · cases List.mem_singleton.1 mem
          rfl

end Seeking

/-- What a question about a start point asks, gives and leaves, by what was answered before. -/
structure Recalls (path : Path) (start : CommitId) (answered : Option (List Commit))
    (entries : Entries) (events : List (Event Tracking)) (last : Entries)
    (result : Except HistoryError (List Commit)) : Prop where
  asks : ∀ query told, .query query told ∈ events →
    query = .commitsAfter path start ∧ answered = none
  gives : ∀ commits, result = .ok commits →
    answered = some commits ∨
      (answered = none ∧ .query (.commitsAfter path start) (.ok commits) ∈ events)
  fails : ∀ error, result = .error error → Refuses events ∧ last = entries
  spares : ∀ category name, ¬(category = commitsAfterCategory ∧ name = path.key) →
    last category name = entries category name

/-- A question about a start point of a file whose entry is the record, which stays the record. -/
theorem Seeking.recalls {reading : Option (Option CommitsByStart)}
    {result : Except HistoryError (List Commit)} {log : StartLog}
    (seeking : Seeking path start reading events result)
    (records : entries.Records path.key log) (leads : entries.Leads events last) :
    Recalls path start (log.first? start) entries events last result ∧
      last.Records path.key (log ++ [(start, result)]) := by
  obtain ⟨here, left⟩ := seeking.among leads
  have asks (query : Query) (told : Except RepositoryError query.Result)
      (mem : .query query told ∈ events) :
      query = .commitsAfter path start ∧ log.first? start = none := by
    obtain ⟨isThis, kept, read, unknown⟩ := here.of_query_mem mem
    have shown := Entries.shows_iff.2 (decodes_iff.2 read)
    exact ⟨isThis, (records.get?_eq shown start).symm.trans unknown⟩
  cases result with
  | error error =>
    have still : last = entries := left
    subst still
    obtain ⟨recorded, shown, -⟩ := records.shows
    refine ⟨?_, records.congr rfl (StartLog.first?_of_error error)⟩
    exact
      { asks := asks
        gives := nofun
        fails := fun _ _ => ⟨here.refuses shown.readable, rfl⟩
        spares := fun _ _ _ => rfl }
  | ok commits =>
    obtain ⟨kept, shown, ⟨known, rfl⟩ | ⟨unknown, told, rfl⟩⟩ := left
    · rw [records.get?_eq shown] at known
      refine ⟨?_, records.congr rfl (StartLog.first?_of_known known _)⟩
      exact
        { asks := asks
          gives := fun _ same => .inl (known.trans (congrArg some (Except.ok.inj same)))
          fails := nofun
          spares := fun _ _ _ => rfl }
    · rw [records.get?_eq shown] at unknown
      refine ⟨?_, Entries.Records.put (records.get?_eq shown) unknown⟩
      exact
        { asks := asks
          gives := fun _ same => .inr ⟨unknown, Except.ok.inj same ▸ told⟩
          fails := nofun
          spares := fun _ _ other => Entries.put_of_ne other }

/-! ## What goes on in between -/

/-- A request leaves the start points of a file alone: it asks for no later commits of the file, and
does not change the entry. -/
def Tracking.Request.SparesStarts (key : String) : Tracking.Request → Prop
  | .query (.commitsAfter path _) => path.key ≠ key
  | .write category name _ | .delete category name =>
    ¬(category = commitsAfterCategory ∧ name = key)
  | _ => True

theorem Tracking.Request.SparesStarts.sparesEntry {request : Tracking.Request}
    (spares : request.SparesStarts key) : request.SparesEntry commitsAfterCategory key := by
  cases request with
  | write category name bytes | delete category name => exact spares
  | _ => trivial

/-- What spares the start points of a file leaves the entry as it was. -/
theorem Entries.leads_startsSpared (spares : ∀ event ∈ events, event.request.SparesStarts key)
    (leads : entries.Leads events last) :
    last commitsAfterCategory key = entries commitsAfterCategory key :=
  leads_entrySpared (fun event mem => (spares event mem).sparesEntry) leads

/-- A call that is not about the start points of a file: a question about other files or about
commits, or an order to forget other files or the main branch. -/
def Call.Apart (key : String) : Call → Prop
  | commitsAfter path _ => path.key ≠ key
  | forgetFile path => (Path.ofText path).key ≠ key
  | checkFiles layout _ paths => ∀ path ∈ paths, (layout.file layout.origin path).key ≠ key
  | checkLanguage _ _ | refresh => False
  | _ => True

/-- A lookup in another category spares the start points. -/
private theorem mayLookUp_apart {category : String} (name : String) {query : Query}
    (other : category ≠ commitsAfterCategory)
    (spares : Tracking.Request.SparesStarts key (.query query)) :
    Tracking.MayLookUp (Tracking.Request.SparesStarts key) category name query where
  reads := trivial
  writes _ same := other same.1
  asks := spares

/-- So does a lookup of another file's start points. -/
private theorem mayLookUp_otherFile {path : Path} (other : path.key ≠ key) (start : CommitId) :
    Tracking.MayLookUp (Tracking.Request.SparesStarts key) commitsAfterCategory path.key
      (.commitsAfter path start) where
  reads := trivial
  writes _ same := other same.2
  asks := other

/-- Calls that are not about the start points of a file spare them. -/
theorem Call.Apart.asks {call : Call} (apart : call.Apart key) :
    call.attempt.Asks (Tracking.Request.SparesStarts key) := by
  have main : History.mainBranch.Asks (Tracking.Request.SparesStarts key) :=
    asks_mainBranch trivial (mayLookUp_apart "" (by decide) trivial)
  have forks (commit : CommitId) : Tracking.MayLookUp (Tracking.Request.SparesStarts key)
      forkCategory commit.text (.ancestors commit) :=
    mayLookUp_apart _ (by decide) trivial
  have merges (commit : CommitId) : Tracking.MayLookUp (Tracking.Request.SparesStarts key)
      mergeCategory commit.text (.mergePoints commit) :=
    mayLookUp_apart _ (by decide) trivial
  cases call with
  | mainBranch => exact main
  | isOnMain commit => exact main.bind fun _ => .pure _
  | fork commit => exact main.bind fun main => asks_forkWithin trivial main (forks commit)
  | merge commit => exact main.bind fun main => asks_mergeWithin trivial main (merges commit)
  | mergeFiles merge =>
    exact main.bind fun main =>
      asks_mergeFilesWithin trivial main merge trivial (fun _ _ => trivial) forks
  | lastCommit path => exact asks_lastCommit trivial (mayLookUp_apart _ (by decide) trivial)
  | commitsAfter path start => exact asks_commitsAfter trivial (mayLookUp_otherFile apart start)
  | checkFiles layout language paths =>
    refine main.bind fun main => .mapM fun path mem => ?_
    exact Staleness.asks_checkFile trivial layout main language path
      (mayLookUp_apart _ (by decide) trivial) trivial (mayLookUp_otherFile (apart path mem))
      forks merges
  | checkLanguage layout language => cases apart
  | forgetFile path =>
    have last : ¬(lastCommitCategory = commitsAfterCategory ∧ (Path.ofText path).key = key) :=
      fun same => absurd same.1 (by decide)
    have later : ¬(commitsAfterCategory = commitsAfterCategory ∧ (Path.ofText path).key = key) :=
      fun same => apart same.2
    exact (asks_drop last).bind fun _ => asks_drop later
  | forgetMainBranch => exact asks_drop fun same => absurd same.1 (by decide)
  | refresh => cases apart

/-! ## Orders to forget -/

/-- What an order to forget a file leaves, by the file's key. -/
structure Forgetting (key : String) (entries : Entries) (events : List (Event Tracking))
    (last : Entries) (result : Except HistoryError Unit) : Prop where
  gone : result = .ok () →
    last lastCommitCategory key = none ∧ last commitsAfterCategory key = none
  fails : ∀ error, result = .error error → Refuses events
  spares : ∀ category name,
    ¬((category = lastCommitCategory ∨ category = commitsAfterCategory) ∧ name = key) →
      last category name = entries category name

/-- An order to forget a file removes one entry after the other. -/
theorem ends_forgetFile {text : String} {result : Except HistoryError Unit}
    (ends : Ends (forgetFile text) events result) :
    (∃ error, events = [.delete lastCommitCategory (Path.ofText text).key (.error error)] ∧
        result = .error (.cache error)) ∨
      ∃ told, events = [.delete lastCommitCategory (Path.ofText text).key (.ok ()),
          .delete commitsAfterCategory (Path.ofText text).key told] ∧
        result = told.mapError .cache := by
  rcases ends_bind.1 ends with ⟨error, failed, rfl⟩ | ⟨⟨⟩, _, _, rfl, dropped, rest⟩
  · obtain ⟨told, drops, same⟩ := ends_mapError.1 failed
    cases told with
    | ok done => cases same
    | error reason =>
      cases same
      exact .inl ⟨reason, ends_drop.1 drops, rfl⟩
  · rw [ends_drop.1 (ends_mapError_ok.1 dropped)]
    obtain ⟨told, drops, rfl⟩ := ends_mapError.1 rest
    rw [ends_drop.1 drops]
    exact .inr ⟨told, rfl, rfl⟩

/-- Forgetting a file drops what is kept about it, and nothing else. -/
theorem forgetting_of_ends {text : String} {result : Except HistoryError Unit}
    (ends : Ends (forgetFile text) events result) (leads : entries.Leads events last) :
    Forgetting (Path.ofText text).key entries events last result := by
  have apart {category name kept : String} (isKept : kept = lastCommitCategory ∨
      kept = commitsAfterCategory) (other : ¬((category = lastCommitCategory ∨
        category = commitsAfterCategory) ∧ name = (Path.ofText text).key)) :
      ¬(category = kept ∧ name = (Path.ofText text).key) := by
    rintro ⟨rfl, same⟩
    exact other ⟨isKept, same⟩
  rcases ends_forgetFile ends with ⟨error, rfl, rfl⟩ | ⟨told, rfl, rfl⟩
  · obtain ⟨-, rfl⟩ := leads
    exact
      { gone := nofun
        fails := fun _ _ => ⟨_, List.mem_cons_self, rfl⟩
        spares := fun _ _ _ => rfl }
  · obtain ⟨-, -, left⟩ := leads
    cases told with
    | ok done =>
      have removed : last = (entries.remove lastCommitCategory (Path.ofText text).key).remove
          commitsAfterCategory (Path.ofText text).key := left
      subst removed
      exact
        { gone := fun _ => ⟨(Entries.remove_of_category (by decide)).trans Entries.remove_self,
            Entries.remove_self⟩
          fails := nofun
          spares := fun category name other => (Entries.remove_of_ne (apart (.inr rfl) other)).trans
            (Entries.remove_of_ne (apart (.inl rfl) other)) }
    | error error =>
      have removed : last = entries.remove lastCommitCategory (Path.ofText text).key := left
      subst removed
      exact
        { gone := nofun
          fails := fun _ _ => ⟨_, List.mem_cons_of_mem _ List.mem_cons_self, rfl⟩
          spares := fun category name other => Entries.remove_of_ne (apart (.inl rfl) other) }

/-! ## Any sequence of questions -/

namespace Surroundings

variable {σ : Type} {S : Surroundings σ} {state : σ} {log : StartLog}

/-- What leads to a state from one in which a file has no entry: questions about its start points,
by any path that has the file's key, and whatever else spares them. Either may be stopped at any
moment; a question that has asked all its requests is not stopped any more. The log takes down the
questions that came to an end. -/
inductive Sought (S : Surroundings σ) (key : String) : σ → StartLog → Prop where
  | start {state : σ} (nothing : S.entries state commitsAfterCategory key = none) :
    Sought S key state []
  | asked {state : σ} {log : StartLog} (before : Sought S key state log) {path : Path}
    (spelled : path.key = key) (start : CommitId) :
    Sought S key (S.after (commitsAfter path start) state)
      (log ++ [(start, S.result (commitsAfter path start) state)])
  | stopped {state : σ} {log : StartLog} (before : Sought S key state log) {path : Path}
    (spelled : path.key = key) (start : CommitId) {count : Nat}
    (early : count < (S.trace (commitsAfter path start) state).length) :
    Sought S key (S.stopped (commitsAfter path start) count state) log
  | aside {state : σ} {log : StartLog} {ε α : Type} (before : Sought S key state log)
    (attempt : Attempt Tracking ε α)
    (spares : ∀ event ∈ S.trace attempt state, event.request.SparesStarts key) :
    Sought S key (S.after attempt state) log
  | asideStopped {state : σ} {log : StartLog} {ε α : Type} (before : Sought S key state log)
    (attempt : Attempt Tracking ε α) (count : Nat)
    (spares : ∀ event ∈ S.trace attempt state, event.request.SparesStarts key) :
    Sought S key (S.stopped attempt count state) log

/-- A question about a start point, asked where the entry is the record. -/
theorem recalls_commitsAfter (records : (S.entries state).Records path.key log)
    (start : CommitId) :
    Recalls path start (log.first? start) (S.entries state)
        (S.trace (commitsAfter path start) state)
        (S.entries (S.after (commitsAfter path start) state))
        (S.result (commitsAfter path start) state) ∧
      (S.entries (S.after (commitsAfter path start) state)).Records path.key
        (log ++ [(start, S.result (commitsAfter path start) state)]) := by
  obtain ⟨reading, seeking⟩ := ends_commitsAfter (S.ends_trace (commitsAfter path start) state)
  exact seeking.recalls records (S.leads _ state)

/-- A question that is stopped before its last request leaves everything as it was. -/
theorem entries_stopped_commitsAfter {count : Nat}
    (early : count < (S.trace (commitsAfter path start) state).length) :
    S.entries (S.stopped (commitsAfter path start) count state) = S.entries state := by
  obtain ⟨reading, seeking⟩ := ends_commitsAfter (S.ends_trace (commitsAfter path start) state)
  refine Entries.leads_spared (fun event mem => ?_) (S.leads_stopped _ count state)
  apply seeking.spares_early event
  rw [List.dropLast_eq_take]
  exact List.take_subset_take_left _ (Nat.le_pred_of_lt early) mem

/-- After any sequence of questions the entry is the record of the answers. -/
theorem Sought.records (sought : S.Sought key state log) : (S.entries state).Records key log := by
  induction sought with
  | start nothing => exact ⟨fun _ => nothing, nofun⟩
  | asked before spelled start ih =>
    subst spelled
    exact (recalls_commitsAfter ih start).2
  | stopped before spelled start early ih =>
    rw [entries_stopped_commitsAfter early]
    exact ih
  | aside before attempt spares ih =>
    exact ih.congr (Entries.leads_startsSpared spares (S.leads attempt _)) fun _ => rfl
  | asideStopped before attempt count spares ih =>
    refine ih.congr (Entries.leads_startsSpared (fun event mem => ?_)
      (S.leads_stopped attempt count _)) fun _ => rfl
    exact spares event (List.take_subset _ _ mem)

/-- After any questions about the start points of a file, by whatever spellings and with whatever in
between, the entry is the record of the first answers. A start point that was answered is given from
it and the repository is not asked again; one that was not is given as the repository tells it now.
A question that fails, or is stopped before its last request, leaves everything as it was. An order
to forget the file drops all of it, the last commit too, and nothing of other files. -/
theorem starts_remembered (sought : S.Sought key state log) :
    (S.entries state).Records key log ∧
      (∀ (path : Path) (start : CommitId), path.key = key →
        Recalls path start (log.first? start) (S.entries state)
            (S.trace (commitsAfter path start) state)
            (S.entries (S.after (commitsAfter path start) state))
            (S.result (commitsAfter path start) state) ∧
          ∀ count < (S.trace (commitsAfter path start) state).length,
            S.entries (S.stopped (commitsAfter path start) count state) = S.entries state) ∧
      (∀ text, (Path.ofText text).key = key →
        Forgetting key (S.entries state) (S.trace (forgetFile text) state)
          (S.entries (S.after (forgetFile text) state)) (S.result (forgetFile text) state)) ∧
      ∀ call : Call, call.Apart key →
        ∀ event ∈ S.trace call.attempt state, event.request.SparesStarts key := by
  refine ⟨sought.records, fun path start spelled => ?_, fun text spelled => ?_,
    fun call apart => apart.asks.ends (S.ends_trace _ _)⟩
  · subst spelled
    exact ⟨(recalls_commitsAfter sought.records start).1,
      fun count early => entries_stopped_commitsAfter early⟩
  · subst spelled
    exact forgetting_of_ends (S.ends_trace _ _) (S.leads _ _)

/-- Surroundings in which a commit comes after every other one, but only until the repository has
answered once. -/
def drifting : Surroundings (Nat × Entries) :=
  .calm
    (fun
      | 0, .commitsAfter _ _ => .ok [newCommit]
      | _, query => oneFile true query)
    fun _ asked => asked + 1

/-- After a question about the page. -/
def pageAsked : Nat × Entries :=
  drifting.after (commitsAfter (Path.ofText "page") oldCommit.id) (0, .empty)

/-- After a question about another file. -/
def guideAsked : Nat × Entries :=
  drifting.after (commitsAfter (Path.ofText "guide") oldCommit.id) pageAsked

/-- After a question about the page in another spelling, from another start point. -/
def pageAskedAgain : Nat × Entries :=
  drifting.after (commitsAfter (Path.ofText "./page") newCommit.id) guideAsked

/-- The first answer is given again, though the repository has another one by now. -/
theorem starts_remembered_drifting :
    let page := Path.ofText "./page"
    drifting.Sought "page" pageAskedAgain
        [(oldCommit.id, .ok [newCommit]), (newCommit.id, .ok [])] ∧
      drifting.result (commitsAfter page oldCommit.id) pageAskedAgain = .ok [newCommit] ∧
      drifting.answer pageAskedAgain (.commitsAfter page oldCommit.id) = .ok [] := by
  intro page
  have first : drifting.result (commitsAfter (Path.ofText "page") oldCommit.id) (0, .empty) =
      .ok [newCommit] := by
    decide +kernel
  have second : drifting.result (commitsAfter page newCommit.id) guideAsked = .ok [] := by
    decide +kernel
  have aside : ∀ event ∈ drifting.trace (commitsAfter (Path.ofText "guide") oldCommit.id) pageAsked,
      event.request.SparesStarts "page" := by
    have apart : (Call.commitsAfter (Path.ofText "guide") oldCommit.id).Apart "page" := by
      show (Path.ofText "guide").key ≠ "page"
      decide +kernel
    exact apart.asks.ends (drifting.ends_trace _ _)
  have sought : drifting.Sought "page" pageAskedAgain
      [(oldCommit.id, .ok [newCommit]), (newCommit.id, .ok [])] := by
    have asked : drifting.Sought "page" pageAsked [(oldCommit.id, _)] :=
      .asked (.start rfl) (by decide +kernel) oldCommit.id
    rw [first] at asked
    have beside : drifting.Sought "page" guideAsked _ := .aside asked _ aside
    have spelled : page.key = "page" := by decide +kernel
    have again := beside.asked spelled newCommit.id
    rw [second] at again
    exact again
  have granted : ¬ Refuses (drifting.trace (commitsAfter page oldCommit.id) pageAskedAgain) := by
    unfold Refuses
    decide +kernel
  obtain ⟨recalls, -⟩ :=
    (starts_remembered sought).2.1 page oldCommit.id (by decide +kernel)
  refine ⟨sought, ?_, rfl⟩
  cases given : drifting.result (commitsAfter page oldCommit.id) pageAskedAgain with
  | error error => exact absurd (recalls.fails error given).1 granted
  | ok commits =>
    have known : StartLog.first? [(oldCommit.id, .ok [newCommit]), (newCommit.id, .ok [])]
        oldCommit.id = some [newCommit] := by
      decide +kernel
    rcases recalls.gives commits given with same | ⟨unknown, -⟩
    · exact congrArg Except.ok (Option.some.inj (same.symm.trans known))
    · exact nomatch known.symm.trans unknown

end Surroundings

end LocaleWatch
