import LocaleWatch.Proofs.Cancellation.Heeding
import LocaleWatch.Proofs.Json.Faithful
import LocaleWatch.Proofs.Program.Contract

/-!
# Entries that can be read

An entry that cannot be read as what it is looked up as is never computed anew, so a single one
would be an error for ever. There is none, because each category belongs to one kind of values:
whoever writes there writes the document of such a value, and whoever reads there reads it as
one. It does not matter which key an entry has, so keys that share a file do no harm either.

This is a contract between the operations and the store: every write is of a readable entry, as
long as every read is. The repository promises nothing.

## Main results

* `EntryKind.reads_compact` — what is written is readable.
* `Operation.honours` — every operation writes readable entries only, and no entry that it is told
  is one that it cannot read.
-/

namespace LocaleWatch

/-! ## Kinds of entries -/

/-- The kinds of entries that the operations keep. -/
inductive EntryKind where
  | mainBranch
  | fork
  | merge
  | lastCommit
  | commitsAfter
  | refreshState
  deriving DecidableEq, Repr

namespace EntryKind

/-- The category of a kind. -/
def category : EntryKind → String
  | mainBranch => History.mainBranchCategory
  | fork => History.forkCategory
  | merge => History.mergeCategory
  | lastCommit => History.lastCommitCategory
  | commitsAfter => History.commitsAfterCategory
  | refreshState => Refresh.stateCategory

/-- The values of a kind. -/
@[reducible] def Value : EntryKind → Type
  | mainBranch => List Commit
  | fork | merge | lastCommit => Option Commit
  | commitsAfter => CommitsByStart
  | refreshState => RefreshState

instance : (kind : EntryKind) → JsonForm kind.Value
  | mainBranch => inferInstanceAs (JsonForm (List Commit))
  | fork | merge | lastCommit => inferInstanceAs (JsonForm (Option Commit))
  | commitsAfter => inferInstanceAs (JsonForm CommitsByStart)
  | refreshState => inferInstanceAs (JsonForm RefreshState)

instance : (kind : EntryKind) → FaithfulForm kind.Value
  | mainBranch => inferInstanceAs (FaithfulForm (List Commit))
  | fork | merge | lastCommit => inferInstanceAs (FaithfulForm (Option Commit))
  | commitsAfter => inferInstanceAs (FaithfulForm CommitsByStart)
  | refreshState => inferInstanceAs (FaithfulForm RefreshState)

/-- Whether a value is one that is kept: of fork commits only those that were found are. -/
def Keeps : (kind : EntryKind) → kind.Value → Prop
  | fork, found => found ≠ none
  | mainBranch, _ | merge, _ | lastCommit, _ | commitsAfter, _ | refreshState, _ => True

/-- Bytes are read as a value of a kind, and it is one that is kept. -/
def Reads (kind : EntryKind) (bytes : List UInt8) : Prop :=
  ∃ value, JsonForm.decode? kind.Value bytes = some value ∧ kind.Keeps value

/-- What is written is readable. -/
theorem reads_compact {kind : EntryKind} {value : kind.Value} (keeps : kind.Keeps value) :
    kind.Reads (Text.bytes (JsonForm.compact value)) :=
  ⟨value, JsonForm.decode_compact value, keeps⟩

/-- No two kinds share a category. -/
theorem category_injective : Function.Injective category := by
  intro kind other
  cases kind <;> cases other <;> decide

/-- The category of each kind is a category. -/
theorem check_category (kind : EntryKind) : Category.check kind.category = .ok () := by
  apply Category.check_eq_ok_iff.2
  cases kind <;> decide +kernel

end EntryKind

/-! ## The contract -/

/-- Whether an error says that an entry cannot be read as a value of its type. -/
def CacheError.IsUndecodable : CacheError → Prop
  | .undecodable _ _ => True
  | _ => False

/-- Whether an error says that an entry cannot be read as a value of its type. -/
def HistoryError.IsUndecodable : HistoryError → Prop
  | .cache error => error.IsUndecodable
  | _ => False

/-- Bytes in the category of a kind are read as a value of the kind. -/
def ReadableIn (category : String) (bytes : List UInt8) : Prop :=
  ∀ kind : EntryKind, kind.category = category → kind.Reads bytes

/-- Every entry that is written is readable, and so is every entry that is read. The store does not
look into entries, so it never finds that one cannot be decoded. -/
def readableEntries : Contract Tracking where
  Allows
    | .write category _ bytes => ∃ kind : EntryKind, kind.category = category ∧ kind.Reads bytes
    | _ => True
  Promises
    | .read category _, .ok (some bytes) => ReadableIn category bytes
    | .read _ _, .error error | .write _ _ _, .error error | .delete _ _, .error error =>
      ¬ CacheError.IsUndecodable error
    | _, _ => True

/-- The attempt writes readable entries only, and fails because of no entry that it is told. -/
abbrev KeepsReadable {α : Type} (attempt : History α) (related : α → Prop) : Prop :=
  Attempt.Honours readableEntries (fun error => ¬ error.IsUndecodable) attempt related

namespace KeepsReadable

variable {α : Type}

/-! ### Queries and the cache -/

theorem query (query : Query) : KeepsReadable (Tracking.query query) fun _ => True :=
  .mapError (.ofResult trivial (fun _ _ _ _ => trivial) fun _ _ _ _ => id)

/-- Who may do something unless the run was cancelled may look at the token first. -/
theorem unlessCancelled {access : CacheAccess} {attempt : Attempt Tracking CacheError α}
    {related : α → Prop}
    (goesOn : Attempt.Honours readableEntries (¬ CacheError.IsUndecodable ·) attempt related) :
    Attempt.Honours readableEntries (¬ CacheError.IsUndecodable ·) (do
      if ← Tracking.isCancelled then throw (.cancelled access)
      attempt) related := by
  refine ⟨trivial, fun cancelled _ => ?_⟩
  cases cancelled with
  | true => exact id
  | false => exact goesOn

section

variable (kind : EntryKind) {key : String}

/-- A lookup of a kind of entries finds what is kept of it. -/
theorem load :
    KeepsReadable (Attempt.mapError .cache (Cache.load kind.Value kind.category key))
      fun _ => True := by
  refine .mapError (unlessCancelled ⟨trivial, ?_⟩)
  rintro (error | _ | bytes) promised
  · exact promised
  · trivial
  · obtain ⟨value, decoded, -⟩ := promised kind rfl
    show Program.Honours readableEntries
      (ExceptT.bindCont _ (Except.ok (some bytes) : Except CacheError _)) _
    simp only [ExceptT.bindCont, decoded]
    trivial

/-- A value that is kept is written. -/
theorem put {value : kind.Value} (keeps : kind.Keeps value) :
    KeepsReadable (Attempt.mapError .cache (Cache.put kind.category key value))
      fun _ => True :=
  .mapError (unlessCancelled (.ofResult ⟨kind, rfl, EntryKind.reads_compact keeps⟩
    (fun _ _ _ _ => trivial) fun told error promised refused => by
      rw [show told = .error error from refused] at promised
      exact promised))

theorem drop {category : String} :
    KeepsReadable (Attempt.mapError .cache (Cache.drop category key)) fun _ => True :=
  .mapError (.ofResult trivial (fun _ _ _ _ => trivial) fun told error promised refused => by
    rw [show told = .error error from refused] at promised
    exact promised)

theorem getUnless {isInvalid : kind.Value → Bool} {compute : History kind.Value}
    (computed : KeepsReadable compute kind.Keeps) :
    KeepsReadable (Cache.getUnless isInvalid kind.category key compute) fun _ => True := by
  have anew : KeepsReadable (do
      let value ← compute
      Attempt.mapError .cache (Cache.put kind.category key value)
      return value : History kind.Value) fun _ => True :=
    computed.bind fun value keeps => (put kind keeps).andThen fun _ => .pure trivial
  refine (load kind).andThen fun found => ?_
  cases found with
  | none => exact anew
  | some value =>
    cases invalid : isInvalid value with
    | true =>
      simp only [invalid]
      exact anew
    | false =>
      simp only [invalid]
      exact .pure trivial

end

/-! ### What the tracker does -/

theorem mainBranch : KeepsReadable History.mainBranch fun _ => True :=
  (getUnless .mainBranch ((query .mainBranch).mono fun _ _ => trivial)).andThen fun _ =>
    .pure trivial

theorem forkWithin (main : MainBranch) (commit : CommitId) :
    KeepsReadable (History.forkWithin main commit) fun _ => True := by
  unfold History.forkWithin
  split
  · exact .pure trivial
  · refine getUnless .fork ((query (.ancestors commit)).andThen fun ancestors => ?_)
    split
    · exact .pure (Option.some_ne_none _)
    · exact .throw id

theorem mergeWithin (main : MainBranch) (commit : CommitId) :
    KeepsReadable (History.mergeWithin main commit) fun _ => True := by
  unfold History.mergeWithin
  split
  · exact .pure trivial
  · exact getUnless .merge ((query (.mergePoints commit)).andThen fun points => .pure trivial)

theorem mergeFilesWithin (main : MainBranch) (merge : CommitId) :
    KeepsReadable (History.mergeFilesWithin main merge) fun _ => True := by
  refine (query (.parents merge)).andThen fun parents => ?_
  split
  · exact .pure trivial
  · exact .pure trivial
  · split
    · refine (forkWithin main _).andThen fun fork => ?_
      split
      · exact query (.filesBetween _ _)
      · exact .throw id
    · exact .throw id
  · exact .throw id

theorem lastCommit (path : Path) : KeepsReadable (History.lastCommit path) fun _ => True :=
  getUnless .lastCommit ((query (.lastCommit path)).mono fun _ _ => trivial)

theorem commitsAfter (path : Path) (start : CommitId) :
    KeepsReadable (History.commitsAfter path start) fun _ => True := by
  refine (load .commitsAfter).andThen fun kept => ?_
  cases found : (kept.getD .empty).get? start with
  | some commits =>
    simp only [found]
    exact .pure trivial
  | none =>
    simp only [found]
    exact (query (.commitsAfter path start)).andThen fun commits =>
      (put .commitsAfter trivial).andThen fun _ => .pure trivial

theorem updates (main : MainBranch) (origin : Path) (start : CommitId) :
    KeepsReadable (Staleness.updates main origin start) fun _ => True :=
  (commitsAfter origin start).andThen fun _ => .mapM fun commit =>
    (mergeWithin main commit.id).andThen fun _ => .pure trivial

theorem checkFile (layout : Layout) (main : MainBranch) (language path : String) :
    KeepsReadable (Staleness.checkFile layout main language path) fun _ => True := by
  unfold Staleness.checkFile
  refine (lastCommit _).andThen fun last => ?_
  cases last with
  | none =>
    refine (query (.fileExists _)).andThen fun originExists => ?_
    cases originExists <;> exact .pure trivial
  | some last =>
    refine (forkWithin main last.id).andThen fun fork => ?_
    refine (mergeWithin main last.id).andThen fun merge => ?_
    refine (query (.fileExists _)).andThen fun originExists => ?_
    cases originExists with
    | false => exact .pure trivial
    | true => exact (updates main _ _).andThen fun updates => .pure trivial

theorem checkFiles (layout : Layout) (language : String) (paths : List String) :
    KeepsReadable (Staleness.checkFiles layout language paths) fun _ => True :=
  mainBranch.andThen fun main => .mapM fun path => checkFile layout main language path

theorem forgetFile (path : String) : KeepsReadable (History.forgetFile path) fun _ => True :=
  drop.andThen fun _ => drop

theorem changedFiles (fresh : List Commit) :
    KeepsReadable (Refresh.changedFiles fresh) fun _ => True := by
  have listings : KeepsReadable (Refresh.listings fresh) fun _ => True :=
    .mapM fun commit => (query (.filesIn commit.id)).andThen fun files => .pure trivial
  have merged (merges : List CommitId) :
      KeepsReadable (Refresh.mergedFiles fresh merges) fun _ => True := by
    unfold Refresh.mergedFiles
    split
    · exact .pure trivial
    · refine mainBranch.andThen fun main => ?_
      exact (Attempt.Honours.mapM fun merge => mergeFilesWithin _ merge).andThen fun files =>
        .pure trivial
  exact listings.andThen fun listings => (merged _).andThen fun files => .pure trivial

theorem refresh : KeepsReadable Refresh.run fun _ => True := by
  have record (fresh : List Commit) (files : List String) : KeepsReadable (do
      let state : RefreshState := ⟨← Tracking.query .mainHead, files⟩
      Attempt.mapError HistoryError.cache (Cache.put Refresh.stateCategory "" state)
      return ⟨fresh, files⟩ : History Refresh.Outcome) fun _ => True :=
    (query .mainHead).andThen fun head => (put .refreshState trivial).andThen fun _ => .pure trivial
  refine (query .fetch).andThen fun _ => (query .freshCommits).andThen fun fresh => ?_
  refine (changedFiles fresh).andThen fun files => ?_
  refine (Attempt.Honours.forM fun path => forgetFile path).andThen fun _ => ?_
  refine (query .pull).andThen fun _ => ?_
  split
  · exact record fresh files
  · exact drop.andThen fun _ => record fresh files

end KeepsReadable

/-- Every operation writes readable entries only, and as long as the entries that it is told are
readable, it does not fail because of one that is not. -/
theorem Operation.honours :
    (operation : Operation) → KeepsReadable operation.attempt fun _ => True
  | call .mainBranch => KeepsReadable.mainBranch
  | call (.isOnMain _) => KeepsReadable.mainBranch.andThen fun _ => .pure trivial
  | call (.fork commit) =>
    KeepsReadable.mainBranch.andThen fun main => KeepsReadable.forkWithin main commit
  | call (.merge commit) =>
    KeepsReadable.mainBranch.andThen fun main => KeepsReadable.mergeWithin main commit
  | call (.mergeFiles merge) =>
    KeepsReadable.mainBranch.andThen fun main => KeepsReadable.mergeFilesWithin main merge
  | call (.lastCommit path) => KeepsReadable.lastCommit path
  | call (.commitsAfter path start) => KeepsReadable.commitsAfter path start
  | call (.checkFiles layout language paths) => KeepsReadable.checkFiles layout language paths
  | call (.checkLanguage layout language) =>
    (KeepsReadable.query _).andThen fun paths => KeepsReadable.checkFiles layout language paths
  | call (.forgetFile path) => KeepsReadable.forgetFile path
  | call .forgetMainBranch => KeepsReadable.drop
  | call .refresh => KeepsReadable.refresh
  | forkWithin main commit => KeepsReadable.forkWithin main commit
  | mergeWithin main commit => KeepsReadable.mergeWithin main commit
  | mergeFilesWithin main merge => KeepsReadable.mergeFilesWithin main merge
  | lastRefresh => KeepsReadable.load .refreshState

end LocaleWatch
