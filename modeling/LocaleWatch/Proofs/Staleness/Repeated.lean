import Mathlib.Data.List.Forall2
import LocaleWatch.Proofs.Cache.Memo
import LocaleWatch.Proofs.Cancellation.Heeding
import LocaleWatch.Proofs.History.Retained
import LocaleWatch.Proofs.Staleness.Direct

/-!
# Checks that are repeated

A check leaves in the store all that it found out. So a check of some of the same files gives the
same states, and needs little of the repository: whether each origin file is there, which is never
kept, and whether a commit was merged that had no merge before. The latter is written down again,
which changes nothing.

What an attempt has found out is *secured* by a store if the attempt replays from every store that
retains it: it gives the value, leaves the store alone and asks no more than that. Each lookup
secures what it gives, and what a sequence or a loop gives is secured by its last store, because the
lookups that come later lose nothing.

## Main results

* `Surroundings.Secures.bind`, `Surroundings.secured_mapM` — sequences and loops secure what they
  give.
* `Surroundings.repeated_check` — what a repeated check gives, asks and leaves.
-/

namespace LocaleWatch

open History

/-! ## What is asked of the repository -/

/-- The path at which a query looks for a file, if it does. -/
def Query.sought? : Query → Option Path
  | .fileExists path => some path
  | _ => none

/-- The query of an event, if it is one. -/
def Event.query? : Event Tracking → Option Query
  | ⟨.query query, _⟩ => some query
  | _ => none

/-- The queries among some events, in order. -/
def queries (events : List (Event Tracking)) : List Query := events.filterMap Event.query?

@[simp] theorem queries_append (first second : List (Event Tracking)) :
    queries (first ++ second) = queries first ++ queries second :=
  List.filterMap_append

/-- Of the repository no more is asked than whether some origin files are there, each once and in
order, and for the merges of commits that are not merged. -/
structure AsksLittle (answers : Answers) (main : MainBranch) (origins : List Path)
    (events : List (Event Tracking)) : Prop where
  sought : (queries events).filterMap Query.sought? = origins
  others : ∀ query ∈ queries events, query.sought? = none →
    ∃ commit, query = .mergePoints commit ∧ Unmerged answers main commit

namespace AsksLittle

variable {answers : Answers} {main : MainBranch} {origins more : List Path}
  {events later : List (Event Tracking)}

theorem of_none (none : queries events = []) : AsksLittle answers main [] events := by
  constructor
  · rw [none]
    rfl
  · rw [none]
    exact nofun

theorem append (first : AsksLittle answers main origins events)
    (second : AsksLittle answers main more later) :
    AsksLittle answers main (origins ++ more) (events ++ later) := by
  constructor
  · rw [queries_append, List.filterMap_append, first.sought, second.sought]
  · intro query mem
    rw [queries_append, List.mem_append] at mem
    rcases mem with mem | mem
    · exact first.others query mem
    · exact second.others query mem

end AsksLittle

section

variable {α : Type} [JsonForm α] {category key : String} {events : List (Event Tracking)}

theorem Loading.queries {reading : Option (Option α)} {result : Except CacheError (Option α)}
    (loading : Loading category key reading events result) : queries events = [] := by
  cases loading <;> rfl

theorem Writing.queries {value : α} {result : Except CacheError Unit}
    (writing : Writing category key value events result) : queries events = [] := by
  cases writing <;> rfl

end

/-! ## Attempts that replay -/

/-- In settled surroundings the attempt gives a value, leaves the store as it is and asks little of
the repository. -/
structure Replays {α : Type} (answers : Answers) (main : MainBranch) (entries : Entries)
    (attempt : History α) (value : α) (origins : List Path) : Prop where
  given : lookedUp answers attempt entries = .ok value
  left : leftBy answers attempt entries = entries
  asks : AsksLittle answers main origins ((settled answers).trace attempt ((), entries))

namespace Replays

variable {α β : Type} {answers : Answers} {main : MainBranch} {entries : Entries}
  {origins more : List Path} {category key : String}

theorem pure (value : α) :
    Replays answers main entries (Pure.pure value : History α) value [] :=
  ⟨rfl, rfl, .of_none rfl⟩

theorem bind {attempt : History α} {next : α → History β} {value : α} {last : β}
    (first : Replays answers main entries attempt value origins)
    (second : Replays answers main entries (next value) last more) :
    Replays answers main entries (attempt >>= next) last (origins ++ more) where
  given := by
    rw [lookedUp_bind, first.given, first.left]
    exact second.given
  left := by
    rw [leftBy_bind, first.given, first.left]
    exact second.left
  asks := by
    have still : (settled answers).after attempt ((), entries) = ((), entries) :=
      Prod.ext rfl first.left
    rw [Surroundings.trace_bind_ok first.given, still]
    exact first.asks.append second.asks

theorem map {attempt : History α} {value : α} (g : α → β)
    (replays : Replays answers main entries attempt value origins) :
    Replays answers main entries (do return g (← attempt)) (g value) origins := by
  have last : Replays answers main entries (Pure.pure (g value) : History β) (g value) [] :=
    pure (g value)
  have both : Replays answers main entries (do return g (← attempt)) (g value) (origins ++ []) :=
    replays.bind last
  rwa [List.append_nil] at both

theorem mapM {f : α → History β} {paths : α → List Path} {items : List α} {values : List β}
    (each : List.Forall₂ (fun item value =>
      Replays answers main entries (f item) value (paths item)) items values) :
    Replays answers main entries (items.mapM f) values (items.flatMap paths) := by
  induction each with
  | nil =>
    rw [List.mapM_nil]
    exact pure []
  | @cons item value items values first others ih =>
    rw [List.mapM_cons, List.flatMap_cons]
    exact first.bind (ih.map (value :: ·))

/-! ### Single steps -/

private theorem queries_query (query : Query) :
    queries ((settled answers).trace (Tracking.query query) ((), entries)) = [query] := by
  obtain ⟨told, asked, -⟩ :=
    ends_query.1 ((settled answers).ends_trace (Tracking.query query) ((), entries))
  rw [asked]
  rfl

theorem sought {path : Path} {told : Bool} (answer : answers (.fileExists path) = .ok told) :
    Replays answers main entries (Tracking.query (.fileExists path)) told [path] where
  given := by
    rw [lookedUp_query, answer]
    rfl
  left := leftBy_query _
  asks := by
    constructor
    · rw [queries_query]
      rfl
    · intro query mem isOther
      rw [queries_query, List.mem_singleton] at mem
      subst mem
      contradiction

theorem points {commit : CommitId} {points : List Commit}
    (answer : answers (.mergePoints commit) = .ok points)
    (unmerged : Unmerged answers main commit) :
    Replays answers main entries (Tracking.query (.mergePoints commit)) points [] where
  given := by
    rw [lookedUp_query, answer]
    rfl
  left := leftBy_query _
  asks := by
    constructor
    · rw [queries_query]
      rfl
    · intro query mem _
      rw [queries_query, List.mem_singleton] at mem
      exact ⟨commit, mem, unmerged⟩

variable [JsonForm α]

theorem load {found : Option α} (shows : entries.Shows category key found) :
    Replays answers main entries (Attempt.mapError .cache (Cache.load α category key)) found
      [] where
  given := (load_settled answers shows).1
  left := (load_settled answers shows).2
  asks := by
    have ends := (settled answers).ends_trace
      (Attempt.mapError HistoryError.cache (Cache.load α category key)) ((), entries)
    obtain ⟨told, loads, -⟩ := Attempt.ends_mapError.1 ends
    obtain ⟨reading, loading⟩ := ends_load loads
    exact .of_none loading.queries

/-- To write down what is kept already changes nothing. -/
theorem put {value : α}
    (held : entries category key = some (Text.bytes (JsonForm.compact value))) :
    Replays answers main entries (Attempt.mapError .cache (Cache.put category key value)) ()
      [] where
  given := (put_settled answers entries category key value).1
  left := by
    rw [(put_settled answers entries category key value).2]
    funext other name
    by_cases same : other = category ∧ name = key
    · obtain ⟨rfl, rfl⟩ := same
      rw [Entries.put_self, held]
    · exact Entries.put_of_ne same
  asks := by
    have ends := (settled answers).ends_trace
      (Attempt.mapError HistoryError.cache (Cache.put category key value)) ((), entries)
    obtain ⟨told, puts, -⟩ := Attempt.ends_mapError.1 ends
    exact .of_none (ends_put puts).queries

/-- A valid value that is kept is given. -/
theorem kept {isInvalid : α → Bool} {compute : History α} {value : α}
    (shows : entries.Shows category key (some value)) (valid : isInvalid value = false) :
    Replays answers main entries (Cache.getUnless isInvalid category key compute) value [] := by
  refine (load shows).bind ?_
  simp only [valid]
  exact .pure value

/-! ### Lookups -/

omit [JsonForm α] in
/-- Of a commit that is not merged it is found out again that it has no merge. -/
theorem unmerged {commit : CommitId} (unmerged : Unmerged answers main commit)
    (held : entries mergeCategory commit.text = some unmergedBytes) :
    Replays answers main entries (mergeWithin main commit) none [] := by
  obtain ⟨off, points, answer, first⟩ := unmerged
  have shows : entries.Shows mergeCategory commit.text (some (none : Option Commit)) :=
    ⟨unmergedBytes, held, JsonForm.decode_compact none⟩
  have computed : Replays answers main entries (findMerge main commit) none [] := by
    rw [← first]
    exact (Replays.points answer ⟨off, points, answer, first⟩).bind (.pure _)
  rw [mergeWithin_off off]
  refine (load shows).bind ?_
  exact computed.bind ((put held).bind (.pure none))

omit [JsonForm α] in
/-- The commits after a start point that are kept are given. -/
theorem later {path : Path} {start : CommitId} {starts : CommitsByStart} {commits : List Commit}
    (shows : entries.Shows commitsAfterCategory path.key (some starts))
    (held : starts.get? start = some commits) :
    Replays answers main entries (History.commitsAfter path start) commits [] := by
  refine (load shows).bind ?_
  simp only [Option.getD_some, held]
  exact .pure commits

end Replays

/-! ## What a store secures -/

/-- From every store that retains what these entries hold, the attempt replays. -/
def Secured {α : Type} (answers : Answers) (main : MainBranch) (entries : Entries)
    (attempt : History α) (value : α) (origins : List Path) : Prop :=
  ∀ later, entries.Retains answers main later → Replays answers main later attempt value origins

theorem Secured.mono {α : Type} {answers : Answers} {main : MainBranch} {entries later : Entries}
    {attempt : History α} {value : α} {origins : List Path}
    (secured : Secured answers main entries attempt value origins)
    (retains : entries.Retains answers main later) :
    Secured answers main later attempt value origins :=
  fun last retains' => secured last (retains.trans retains')

namespace Surroundings

variable {σ α β : Type} {S : Surroundings σ} {answers : LocaleWatch.Answers} {main : MainBranch}
  {origins : List Path}

/-- Where the main branch is kept, the attempt loses nothing, and what it gives is secured. -/
def Secures (S : Surroundings σ) (answers : LocaleWatch.Answers) (main : MainBranch)
    (attempt : History α) (origins : List Path) : Prop :=
  ∀ state value, (S.entries state).Shows mainBranchCategory "" (some main.commits) →
    S.result attempt state = .ok value →
      (S.entries state).Retains answers main (S.entries (S.after attempt state)) ∧
        Secured answers main (S.entries (S.after attempt state)) attempt value origins

namespace Secures

theorem pure (value : α) : S.Secures answers main (Pure.pure value : History α) [] := by
  intro state other shown told
  obtain rfl : value = other := Except.ok.inj told
  exact ⟨.refl shown, fun _ _ => .pure value⟩

/-- A sequence secures what it gives: its second part loses nothing of what the first found out. -/
theorem bind {attempt : History α} {next : α → History β} {more : List Path}
    (first : S.Secures answers main attempt origins)
    (second : ∀ value, S.Secures answers main (next value) more) :
    S.Secures answers main (attempt >>= next) (origins ++ more) := by
  intro state last shown told
  obtain ⟨value, given, rest⟩ := result_bind_ok told
  obtain ⟨retains, secured⟩ := first state value shown given
  obtain ⟨retains', secured'⟩ := second value _ last retains.mainKept rest
  rw [after_bind, given]
  refine ⟨retains.trans retains', fun later retained => ?_⟩
  exact (secured.mono retains' later retained).bind (secured' later retained)

/-- A sequence whose first part looks for no file. -/
theorem andThen {attempt : History α} {next : α → History β}
    (first : S.Secures answers main attempt [])
    (second : ∀ value, S.Secures answers main (next value) origins) :
    S.Secures answers main (attempt >>= next) origins :=
  first.bind second

end Secures

/-- A loop secures what each of its rounds gives. -/
theorem secured_mapM {f : α → History β} {paths : α → List Path}
    (each : ∀ item, S.Secures answers main (f item) (paths item)) (items : List α) {state : σ}
    {values : List β} (shown : (S.entries state).Shows mainBranchCategory "" (some main.commits))
    (told : S.result (items.mapM f) state = .ok values) :
    (S.entries state).Retains answers main (S.entries (S.after (items.mapM f) state)) ∧
      List.Forall₂ (fun item value =>
        Secured answers main (S.entries (S.after (items.mapM f) state)) (f item) value (paths item))
        items values := by
  induction items generalizing state values with
  | nil =>
    rw [List.mapM_nil] at told ⊢
    obtain rfl : [] = values := Except.ok.inj told
    exact ⟨.refl shown, .nil⟩
  | cons item items ih =>
    rw [List.mapM_cons] at told ⊢
    obtain ⟨value, given, rest⟩ := result_bind_ok told
    obtain ⟨others, given', last⟩ := result_bind_ok rest
    obtain rfl : value :: others = values := Except.ok.inj last
    obtain ⟨retains, secured⟩ := each item state value shown given
    obtain ⟨retains', secured'⟩ := ih retains.mainKept given'
    rw [after_bind, given]
    dsimp only
    rw [after_bind, given']
    exact ⟨retains.trans retains', .cons (secured.mono retains') secured'⟩

theorem Secures.mapM {f : α → History β} {paths : α → List Path}
    (each : ∀ item, S.Secures answers main (f item) (paths item)) (items : List α) :
    S.Secures answers main (items.mapM f) (items.flatMap paths) := by
  intro state values shown told
  obtain ⟨retains, secured⟩ := secured_mapM each items shown told
  refine ⟨retains, fun later retained => .mapM ?_⟩
  exact secured.imp fun _ _ secured => secured later retained

/-! ## Lookups -/

/-- The commits after a start point that were looked up are kept then. -/
private theorem shows_commitsAfter {path : Path} {start : CommitId} {commits : List Commit}
    {state : σ} (told : S.result (History.commitsAfter path start) state = .ok commits) :
    ∃ starts, (S.entries (S.after (History.commitsAfter path start) state)).Shows
        commitsAfterCategory path.key (some starts) ∧
      CommitsByStart.get? starts start = some commits := by
  have leads := S.leads (History.commitsAfter path start) state
  have ends := S.ends_trace (History.commitsAfter path start) state
  rw [told] at ends
  generalize S.entries (S.after (History.commitsAfter path start) state) = last at leads ⊢
  generalize S.entries state = entries at leads
  obtain ⟨kept, opening, rest, same, loads, ended⟩ := Attempt.ends_bind_ok.1 ends
  obtain ⟨reading, loading⟩ := ends_load (Attempt.ends_mapError_ok.1 loads)
  rw [same] at leads
  obtain ⟨_, first, second⟩ := Entries.leads_append.1 leads
  obtain ⟨loading, rfl⟩ := loading.among first
  have shows : Entries.Shows _ commitsAfterCategory path.key kept :=
    Entries.shows_iff.2 (decodes_iff.2 loading.reading_eq)
  cases held : (kept.getD .empty).get? start with
  | some found =>
    simp only [held] at ended
    obtain ⟨rfl, given⟩ := Attempt.ends_pure.1 ended
    obtain rfl : last = _ := second
    cases given
    cases kept with
    | none => cases held
    | some starts => exact ⟨starts, shows, held⟩
  | none =>
    simp only [held] at ended
    obtain ⟨answer, _, _, rfl, asked, writing⟩ := Attempt.ends_bind_ok.1 ended
    obtain ⟨⟨⟩, _, _, rfl, written, final⟩ := Attempt.ends_bind_ok.1 writing
    obtain ⟨rfl, given⟩ := Attempt.ends_pure.1 final
    rw [ends_query_ok.1 asked, ends_put_ok (Attempt.ends_mapError_ok.1 written)] at second
    cases given
    obtain ⟨-, -, -, same⟩ := second
    obtain rfl : last = _ := same
    exact ⟨_, Entries.shows_put _, CommitsByStart.get?_insert_self _ _ _⟩

/-- That a commit has no merge is written down, whatever was kept. -/
private theorem holds_unmerged {commit : CommitId} {compute : History (Option Commit)} {state : σ}
    (spares : Attempt.Asks (Tracking.Request.sparesEntries · = true) compute)
    (told : S.result (Cache.getUnless Option.isNone mergeCategory commit.text compute) state =
      .ok none) :
    S.entries (S.after (Cache.getUnless Option.isNone mergeCategory commit.text compute) state)
      mergeCategory commit.text = some unmergedBytes := by
  have leads := S.leads (Cache.getUnless Option.isNone mergeCategory commit.text compute) state
  have ends := S.ends_trace (Cache.getUnless Option.isNone mergeCategory commit.text compute) state
  rw [told] at ends
  obtain ⟨reading, lookup⟩ := ends_getUnless ends
  rcases (lookup.among spares leads).2 with ⟨-, valid, -⟩ | ⟨-, written⟩
  · contradiction
  · rw [written]
    exact Entries.put_self

section

/-- An attempt that keeps whatever was kept secures what it gives, if that can be read off. -/
private theorem secures_of_keeps {attempt : History α} {related : α → Prop}
    (keeps : ∀ kept, Attempt.Keeps S.handler (S.Retaining answers main kept) attempt related)
    (secured : ∀ state value, S.result attempt state = .ok value → related value →
      Secured answers main (S.entries (S.after attempt state)) attempt value origins) :
    S.Secures answers main attempt origins := by
  intro state value shown told
  obtain ⟨retains, known⟩ := keeps_run (keeps (S.entries state)) (.refl shown)
  exact ⟨retains, secured state value told (known value told)⟩

variable (fixed : ∀ state query, S.answer state query = answers query)
include fixed

theorem secures_sought (path : Path) :
    S.Secures answers main (Tracking.query (.fileExists path)) [path] := by
  refine secures_of_keeps (fun kept =>
    keeps_asked (retains_upholds fixed).quiet rfl) fun state told given _ later _ => ?_
  exact .sought ((fixed state _).symm.trans (answer_of_result given))

theorem secures_lastCommit (path : Path) :
    S.Secures answers main (History.lastCommit path) [] := by
  refine secures_of_keeps (fun kept => (retains_upholds fixed).last path)
    fun state value told _ later retains => ?_
  obtain ⟨bytes, held, decoded⟩ := shows_getUnless told
  exact .kept ⟨bytes, retains.single (.inl rfl) held, decoded⟩ rfl

theorem secures_forkWithin (commit : CommitId) :
    S.Secures answers main (forkWithin main commit) [] := by
  refine secures_of_keeps (fun kept => (retains_upholds fixed).fork main commit rfl)
    fun state value told _ later retains => ?_
  cases on : main.contains commit with
  | true =>
    unfold forkWithin at told ⊢
    rw [on] at told ⊢
    obtain rfl : none = value := Except.ok.inj told
    exact .pure none
  | false =>
    rw [forkWithin_off on] at told retains ⊢
    obtain ⟨bytes, held, decoded⟩ := shows_getUnless told
    exact .kept ⟨bytes, retains.single (.inr rfl) held, decoded⟩ rfl

theorem secures_mergeWithin (commit : CommitId) :
    S.Secures answers main (mergeWithin main commit) [] := by
  refine secures_of_keeps (fun kept => keeps_mergeKept fixed commit)
    fun state value told none later retains => ?_
  cases on : main.contains commit with
  | true =>
    unfold mergeWithin at told ⊢
    rw [on] at told ⊢
    obtain rfl : Option.none = value := Except.ok.inj told
    exact .pure Option.none
  | false =>
    rw [mergeWithin_off on] at told retains
    cases value with
    | none =>
      have unmerged : Unmerged answers main commit := none on rfl
      have spares : Attempt.Asks (Tracking.Request.sparesEntries · = true)
          (findMerge main commit) :=
        ⟨rfl, fun told => by cases told <;> trivial⟩
      exact .unmerged unmerged (retains.unmerged unmerged (holds_unmerged spares told))
    | some merge =>
      obtain ⟨bytes, held, decoded⟩ := shows_getUnless told
      rw [mergeWithin_off on]
      exact .kept ⟨bytes, retains.merged held decoded, decoded⟩ rfl

theorem secures_commitsAfter (path : Path) (start : CommitId) :
    S.Secures answers main (History.commitsAfter path start) [] := by
  refine secures_of_keeps (fun kept => (retains_upholds fixed).commitsAfter path start)
    fun state value told _ later retains => ?_
  obtain ⟨starts, shows, held⟩ := shows_commitsAfter told
  obtain ⟨more, shows', grows⟩ := retains.starts shows
  exact .later shows' (grows start value held)

/-! ## Files -/

theorem secures_updates (origin : Path) (start : CommitId) :
    S.Secures answers main (Staleness.updates main origin start) [] := by
  apply (secures_commitsAfter fixed origin start).andThen
  intro commits
  have each (commit : Commit) : S.Secures answers main
      (do return (⟨commit, ← mergeWithin main commit.id⟩ : OriginUpdate)) [] :=
    (secures_mergeWithin fixed commit.id).andThen fun merge => .pure _
  have all := Secures.mapM each commits
  rwa [List.flatMap_eq_nil_iff.2 fun _ _ => rfl] at all

/-- A check of one file looks for its origin file only. -/
theorem secures_checkFile (layout : Layout) (language path : String) :
    S.Secures answers main (Staleness.checkFile layout main language path)
      [layout.file layout.origin path] := by
  have looks {γ : Type} {next : Bool → History γ}
      (rest : ∀ told, S.Secures answers main (next told) []) :
      S.Secures answers main
        (Tracking.query (.fileExists (layout.file layout.origin path)) >>= next)
        [layout.file layout.origin path] :=
    (secures_sought fixed _).bind rest
  unfold Staleness.checkFile
  apply (secures_lastCommit fixed _).andThen
  intro last
  cases last with
  | none =>
    apply looks
    intro told
    cases told <;> exact .pure _
  | some last =>
    apply (secures_forkWithin fixed last.id).andThen
    intro fork
    apply (secures_mergeWithin fixed last.id).andThen
    intro merge
    apply looks
    intro told
    cases told with
    | false => exact .pure _
    | true => exact (secures_updates fixed _ _).andThen fun updates => .pure _

end

end Surroundings

/-! ## Runs that nothing disturbs -/

/-- Nothing is cancelled or refused at an event, and the repository answers as it always does. -/
def Event.IsCalm (answers : Answers) : Event Tracking → Prop
  | ⟨.isCancelled, told⟩ => told = false
  | ⟨.cancel, _⟩ => True
  | ⟨.query query, told⟩ => told = answers query
  | ⟨.read _ _, told⟩ => ∃ held, told = .ok held
  | ⟨.write _ _ _, told⟩ | ⟨.delete _ _, told⟩ => told = .ok ()
  | ⟨.holds _ _, _⟩ => False

/-- Whether a request asks if there is an entry. -/
def Tracking.Request.isHolds : Tracking.Request → Bool
  | .holds _ _ => true
  | _ => false

namespace Surroundings

variable {σ α : Type} {S : Surroundings σ} {answers : LocaleWatch.Answers}

/-- At a calm event any surroundings do what settled ones do. -/
private theorem handler_of_calm {request : Tracking.Request} {state : σ}
    (calm : Event.IsCalm answers ⟨request, (S.handler request state).1⟩) :
    (settled answers).handler request ((), S.entries state) =
      ((S.handler request state).1, (), S.entries (S.next request state)) := by
  have answered (told : Tracking.Answer request)
      (same : (S.handler request state).1 = told) {entries : Entries}
      (left : S.entries (S.next request state) = entries) :
      (told, (), entries) =
        ((S.handler request state).1, (), S.entries (S.next request state)) := by
    subst same left
    rfl
  cases request with
  | isCancelled => exact answered false calm (S.entries_spared rfl)
  | cancel => exact answered () rfl (S.entries_spared rfl)
  | query query => exact answered (answers query) calm (S.entries_spared rfl)
  | read category key =>
    obtain ⟨held, told⟩ := calm
    refine answered (.ok (S.entries state category key)) ?_ (S.entries_spared rfl)
    exact told.trans (congrArg Except.ok (S.entry_of_read told).symm)
  | write category key bytes => exact answered (.ok ()) calm (S.entries_write calm)
  | delete category key => exact answered (.ok ()) calm (S.entries_delete calm)
  | holds category key => cases calm

private theorem run_of_calm (program : Program Tracking α) (state : σ)
    (calm : ∀ event ∈ program.trace S.handler state, event.IsCalm answers) :
    program.run (settled answers).handler ((), S.entries state) =
        ((program.run S.handler state).1, (), S.entries (program.run S.handler state).2) ∧
      program.trace (settled answers).handler ((), S.entries state) =
        program.trace S.handler state := by
  induction program generalizing state with
  | done value => exact ⟨rfl, rfl⟩
  | ask request next ih =>
    obtain ⟨first, others⟩ := List.forall_mem_cons.1 calm
    have step := handler_of_calm first
    obtain ⟨ran, asked⟩ := ih _ _ others
    constructor
    · rw [Program.run_ask, step]
      exact ran
    · unfold Program.trace
      rw [step]
      exact congrArg (_ :: ·) asked

/-- A run that nothing disturbs gives what settled surroundings give. -/
theorem settled_of_calm {attempt : History α} {state : σ}
    (calm : ∀ event ∈ S.trace attempt state, event.IsCalm answers) :
    S.result attempt state = lookedUp answers attempt (S.entries state) ∧
      S.entries (S.after attempt state) = leftBy answers attempt (S.entries state) ∧
      S.trace attempt state = (settled answers).trace attempt ((), S.entries state) := by
  obtain ⟨ran, asked⟩ := run_of_calm attempt.run state calm
  refine ⟨?_, ?_, asked.symm⟩
  · exact (congrArg Prod.fst ran).symm
  · exact (congrArg (fun ended => ended.2.2) ran).symm

/-- Settled surroundings are calm, unless it is asked whether there is an entry. -/
theorem settled_calm {attempt : History α}
    (asks : Attempt.Asks (Tracking.Request.isHolds · = false) attempt) (state : Unit × Entries) :
    ∀ event ∈ (settled answers).trace attempt state, event.IsCalm answers := by
  unfold trace
  unfold Attempt.Asks at asks
  generalize attempt.run = program at asks
  induction program generalizing state with
  | done value => exact nofun
  | ask request next ih =>
    obtain ⟨unheld, others⟩ := asks
    refine List.forall_mem_cons.2 ⟨?_, ih _ _ (others _)⟩
    cases request with
    | read category key => exact ⟨_, rfl⟩
    | holds category key => cases unheld
    | cancel => trivial
    | _ => rfl

/-- A program that heeds the token reads and writes entries, and never asks whether there is one. -/
private theorem asks_of_heeds {removes : Prop} {program : Program Tracking (Except HistoryError α)}
    (heeds : Heeds removes program) : program.Asks (Tracking.Request.isHolds · = false) := by
  induction heeds with
  | done result => trivial
  | query refused cancelled rest ih => exact ⟨rfl, ih⟩
  | @access request next later error stops goesOn isAccess cancelled rest ih =>
    refine ⟨rfl, fun told => ?_⟩
    cases told with
    | true =>
      rw [stops]
      trivial
    | false =>
      rw [goesOn]
      refine ⟨?_, ih⟩
      cases request with
      | holds category key => cases isAccess
      | _ => rfl
  | delete may rest ih => exact ⟨rfl, ih⟩

/-! ## Repeated checks -/

/-- What a check of one file gives that replays. -/
private def replayed (answers : LocaleWatch.Answers) (entries : Entries) (layout : Layout)
    (main : MainBranch) (language path : String) : LocalizedFile :=
  match lookedUp answers (Staleness.checkFile layout main language path) entries with
  | .ok file => file
  | .error _ => ⟨path, none, none, none, .unchanged, []⟩

private theorem replayed_eq {entries : Entries} {layout : Layout} {main : MainBranch}
    {language path : String} {file : LocalizedFile} {origins : List Path}
    (replays : Replays answers main entries (Staleness.checkFile layout main language path) file
      origins) : replayed answers entries layout main language path = file := by
  unfold replayed
  rw [replays.given]

/-- The main branch that a lookup gives is kept then, and it is the one that was kept before or
else the repository's. -/
private theorem mainBranch_kept (fixed : ∀ state query, S.answer state query = answers query)
    {main : MainBranch} {state : σ} (told : S.result mainBranch state = .ok main) :
    (S.entries (S.after mainBranch state)).Shows mainBranchCategory "" (some main.commits) ∧
      SeenMain (S.entries state) answers main.commits := by
  have steady : S.SteadyBut (fun _ => False) fun _ => True :=
    fun request state query _ _ => (fixed _ query).trans (fixed _ query).symm
  constructor
  · obtain ⟨commits, given, rest⟩ := result_bind_ok told
    obtain rfl : MainBranch.mk commits = main := Except.ok.inj rest
    have shows := shows_getUnless given
    have same : S.after mainBranch state =
        S.after (Cache.get mainBranchCategory "" (Tracking.query .mainBranch)) state := by
      unfold mainBranch
      rw [after_bind, given]
      rfl
    rw [same]
    exact shows
  · have keeps : Attempt.Keeps S.handler
        (S.Holding (fun _ => True) answers (MainSeen (S.entries state) answers)) mainBranch
        fun main => SeenMain (S.entries state) answers main.commits :=
      keeps_mainBranch steady nofun trivial (fun _ seen => seen)
        fun _ _ absent told _ => .put absent told
    exact (keeps_run keeps ⟨fun query _ => fixed state query, .refl⟩).2 main told

/-- After a check that succeeded, and as long as nothing is dropped, a check of some of its files
that nothing disturbs gives each of them the same state. It asks the repository whether each origin
file is there and which merges there are of commits that are off the main branch and not merged,
and it leaves every entry as it was. -/
theorem repeated_check (S : Surroundings σ) (answers : LocaleWatch.Answers)
    (fixed : ∀ state query, S.answer state query = answers query) (layout : Layout)
    (language : String) (paths again : List String) (files : List LocalizedFile) (state last : σ)
    (checked : S.result (Staleness.checkFiles layout language paths) state = .ok files)
    (between : S.Reached (· = S.after (Staleness.checkFiles layout language paths) state)
      (fun call _ => call.drops = false ∨ (call = .refresh ∧ answers .freshCommits = .ok []))
      last)
    (among : ∀ path ∈ again, path ∈ paths)
    (calm : ∀ event ∈ S.trace (Staleness.checkFiles layout language again) last,
      event.IsCalm answers) :
    ∃ (main : MainBranch) (stateOf : String → LocalizedFile),
      SeenMain (S.entries state) answers main.commits ∧
      files = paths.map stateOf ∧
      S.result (Staleness.checkFiles layout language again) last = .ok (again.map stateOf) ∧
      AsksLittle answers main (again.map (layout.file layout.origin))
        (S.trace (Staleness.checkFiles layout language again) last) ∧
      S.entries (S.after (Staleness.checkFiles layout language again) last) = S.entries last := by
  obtain ⟨main, told, rest⟩ := result_bind_ok checked
  obtain ⟨shown, seen⟩ := mainBranch_kept fixed told
  obtain ⟨retains, secured⟩ :=
    secured_mapM (fun path => secures_checkFile fixed layout language path) paths shown rest
  have ended : S.after (Staleness.checkFiles layout language paths) state =
      S.after (paths.mapM (Staleness.checkFile layout main language))
        (S.after mainBranch state) := by
    unfold Staleness.checkFiles
    rw [after_bind, told]
  rw [ended] at between
  have retained := between.retains fixed retains.mainKept
  have replays : List.Forall₂ (fun path file => Replays answers main (S.entries last)
      (Staleness.checkFile layout main language path) file [layout.file layout.origin path])
      paths files :=
    secured.imp fun _ _ secured => secured (S.entries last) retained
  let stateOf := replayed answers (S.entries last) layout main language
  have same : files = paths.map stateOf := by
    have mapped := List.forall₂_map_left_iff.2 (replays.imp fun path file => replayed_eq)
    exact (List.forall₂_eq_eq_eq ▸ mapped : paths.map stateOf = files).symm
  have single : ∀ path ∈ paths, Replays answers main (S.entries last)
      (Staleness.checkFile layout main language path) (stateOf path)
      [layout.file layout.origin path] := by
    rw [same] at replays
    exact List.forall₂_same.1 (List.forall₂_map_right_iff.1 replays)
  have loop : Replays answers main (S.entries last)
      (again.mapM (Staleness.checkFile layout main language)) (again.map stateOf)
      (again.flatMap fun path => [layout.file layout.origin path]) :=
    .mapM (List.forall₂_map_right_iff.2 (List.forall₂_same.2 fun path mem =>
      single path (among path mem)))
  have found : Replays answers main (S.entries last) mainBranch main [] :=
    (Replays.kept retained.mainKept rfl).map MainBranch.mk
  have whole : Replays answers main (S.entries last) (Staleness.checkFiles layout language again)
      (again.map stateOf) (again.map (layout.file layout.origin)) := by
    rw [List.map_eq_flatMap (f := layout.file layout.origin)]
    exact found.bind loop
  obtain ⟨result, left, asked⟩ := settled_of_calm calm
  rw [result, left, asked]
  exact ⟨main, stateOf, seen, same, whole.given, whole.asks, whole.left⟩

end Surroundings

namespace Facts

open Surroundings

/-- A repository whose branch is not merged. -/
def branched : Facts
  | .mergePoints _ => []
  | query => merged query

/-- What a first check leaves. -/
def firstChecked : Unit × Entries :=
  (settled branched.answers).after (Staleness.checkFiles .standard "de" ["page", "note"])
    ((), .empty)

/-- The page on the branch is checked again. -/
theorem repeated_check_branched :
    (settled branched.answers).result (Staleness.checkFiles .standard "de" ["page"])
        firstChecked = .ok [{ mergedPage with
          merge := none
          updates := [⟨branchCommit, none⟩, ⟨mergeCommit, none⟩] }] ∧
      (settled branched.answers).entries ((settled branched.answers).after
        (Staleness.checkFiles .standard "de" ["page"]) firstChecked) = firstChecked.2 := by
  have checked : (settled branched.answers).result
      (Staleness.checkFiles .standard "de" ["page", "note"]) ((), .empty) = .ok [{ mergedPage with
          merge := none
          updates := [⟨branchCommit, none⟩, ⟨mergeCommit, none⟩] },
        ⟨"note", some baseCommit, none, none, .missing, []⟩] := by
    decide +kernel
  have heeds : Heeds False (Staleness.checkFiles .standard "de" ["page"]).run :=
    heeds_checkFiles .standard "de" ["page"]
  have calm : ∀ event ∈ (settled branched.answers).trace
      (Staleness.checkFiles .standard "de" ["page"]) firstChecked,
        event.IsCalm branched.answers :=
    settled_calm (asks_of_heeds heeds) firstChecked
  obtain ⟨main, stateOf, -, same, given, -, left⟩ := repeated_check (settled branched.answers)
    branched.answers (fun _ _ => rfl) .standard "de" ["page", "note"] ["page"] _ ((), .empty)
    firstChecked checked (.start rfl) (by decide) calm
  refine ⟨given.trans (congrArg Except.ok ?_), left⟩
  have page := (List.cons.inj same).1
  rw [List.map_singleton, ← page]

end Facts

end LocaleWatch
