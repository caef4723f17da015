import LocaleWatch.Proofs.Calls
import LocaleWatch.Proofs.Calm

/-!
# Coherent stores

A store is coherent if each entry holds what would be computed from the repository's answers.
While these stay as they are and nothing is refused, a lookup cannot tell one coherent store
from another: it gives what it would compute.

## Main results

* `getUnless_right` — a lookup among right entries gives what is computed without them.
* `Coherent.settles` — from a coherent store every lookup of the history gives what it gives
  from the empty store; those that use no fork commits do so whatever is kept of these.
-/

namespace LocaleWatch

open History

/-! ## Settled surroundings -/

/-- Surroundings in which nothing is refused and the repository's answers stay as they are. -/
def settled (answers : Answers) : Surroundings (Unit × Entries) :=
  .calm (fun _ => answers) fun _ stage => stage

/-- What comes of an attempt in settled surroundings, from what the store holds. -/
def lookedUp {α : Type} (answers : Answers) (attempt : History α) (entries : Entries) :
    Except HistoryError α :=
  (settled answers).result attempt ((), entries)

/-- What the store holds after an attempt in settled surroundings. -/
def leftBy {α : Type} (answers : Answers) (attempt : History α) (entries : Entries) : Entries :=
  ((settled answers).after attempt ((), entries)).2

section

variable {α β : Type} {answers : Answers} {entries : Entries} {kind : Entries → Prop}

@[simp] theorem lookedUp_query (query : Query) :
    lookedUp answers (Tracking.query query) entries = (answers query).mapError .repository :=
  Surroundings.calm_result_query _ _ _

@[simp] theorem leftBy_query (query : Query) :
    leftBy answers (Tracking.query query) entries = entries :=
  congrArg Prod.snd (Surroundings.calm_after_question () entries query rfl)

theorem lookedUp_bind (attempt : History α) (next : α → History β) :
    lookedUp answers (attempt >>= next) entries = lookedUp answers attempt entries >>= fun value =>
      lookedUp answers (next value) (leftBy answers attempt entries) :=
  Surroundings.result_bind _ _ _

theorem leftBy_bind (attempt : History α) (next : α → History β) :
    leftBy answers (attempt >>= next) entries =
      match lookedUp answers attempt entries with
      | .ok value => leftBy answers (next value) (leftBy answers attempt entries)
      | .error _ => leftBy answers attempt entries := by
  unfold leftBy lookedUp
  rw [Surroundings.after_bind]
  cases (settled answers).result attempt ((), entries) <;> rfl

variable [JsonForm α] {category key : String}

theorem load_settled (answers : Answers) {found : Option α}
    (shown : entries.Shows category key found) :
    lookedUp answers (Attempt.mapError .cache (Cache.load α category key)) entries = .ok found ∧
      leftBy answers (Attempt.mapError .cache (Cache.load α category key)) entries = entries := by
  have read {entry : Option (List UInt8)} (held : entries category key = entry) :
      (settled answers).handler (.read category key) ((), entries) =
        ((.ok entry : Except CacheError (Option (List UInt8))), (), entries) := by
    rw [← held]
    rfl
  have run : (Cache.load α category key).run.run (settled answers).handler ((), entries) =
      (.ok found, (), entries) := by
    show Program.run (settled answers).handler (.ask (.read category key) _) ((), entries) = _
    refine (Program.run_ask _ _ _ _).trans ?_
    cases found with
    | none =>
      rw [read shown]
      rfl
    | some value =>
      obtain ⟨bytes, held, decoded⟩ := shown
      rw [read held]
      simp only [ExceptT.bindCont, decoded]
      rfl
  unfold lookedUp leftBy
  rw [Surroundings.result_mapError, Surroundings.after_mapError]
  unfold Surroundings.result Surroundings.after
  rw [run]
  exact ⟨rfl, rfl⟩

theorem put_settled (answers : Answers) (entries : Entries) (category key : String)
    (value : α) :
    lookedUp answers (Attempt.mapError .cache (Cache.put category key value)) entries = .ok () ∧
      leftBy answers (Attempt.mapError .cache (Cache.put category key value)) entries =
        entries.put category key (Text.bytes (JsonForm.compact value)) := by
  unfold lookedUp leftBy
  rw [Surroundings.result_mapError, Surroundings.after_mapError]
  exact ⟨rfl, rfl⟩

/-- A lookup of a valid entry gives what is shown. -/
theorem getUnless_shown (answers : Answers) {isInvalid : α → Bool} (compute : History α) {value : α}
    (shown : entries.Shows category key (some value)) (valid : isInvalid value = false) :
    lookedUp answers (Cache.getUnless isInvalid category key compute) entries = .ok value ∧
      leftBy answers (Cache.getUnless isInvalid category key compute) entries = entries := by
  obtain ⟨loaded, left⟩ := load_settled answers shown
  unfold Cache.getUnless
  rw [lookedUp_bind, leftBy_bind, loaded, left]
  constructor
  · show lookedUp answers (if isInvalid value = true then _ else pure value) entries = .ok value
    rw [valid]
    rfl
  · show leftBy answers (if isInvalid value = true then _ else pure value) entries = entries
    rw [valid]
    rfl

/-- A value that is computed is written down. -/
private theorem compute_settled (category key : String) {compute : History α}
    (idle : leftBy answers compute entries = entries) :
    lookedUp answers (do
        let value ← compute
        Attempt.mapError HistoryError.cache (Cache.put category key value)
        return value) entries = lookedUp answers compute entries ∧
      leftBy answers (do
        let value ← compute
        Attempt.mapError HistoryError.cache (Cache.put category key value)
        return value) entries =
        match lookedUp answers compute entries with
        | .ok value => entries.put category key (Text.bytes (JsonForm.compact value))
        | .error _ => entries := by
  rw [lookedUp_bind, leftBy_bind, idle]
  cases lookedUp answers compute entries with
  | error error => exact ⟨rfl, rfl⟩
  | ok value =>
    obtain ⟨written, left⟩ := put_settled answers entries category key value
    constructor
    · show lookedUp answers (Attempt.mapError HistoryError.cache (Cache.put category key value) >>=
        fun _ => pure value) entries = .ok value
      rw [lookedUp_bind, written]
      rfl
    · show leftBy answers (Attempt.mapError HistoryError.cache (Cache.put category key value) >>=
        fun _ => pure value) entries = _
      rw [leftBy_bind, written]
      exact left

/-- A lookup that finds no valid entry gives what is computed, and writes it down. -/
theorem getUnless_missing {isInvalid : α → Bool} {compute : History α} {found : Option α}
    (shown : entries.Shows category key found) (invalid : ∀ value, found = some value →
      isInvalid value = true) (idle : leftBy answers compute entries = entries) :
    lookedUp answers (Cache.getUnless isInvalid category key compute) entries =
        lookedUp answers compute entries ∧
      leftBy answers (Cache.getUnless isInvalid category key compute) entries =
        match lookedUp answers compute entries with
        | .ok value => entries.put category key (Text.bytes (JsonForm.compact value))
        | .error _ => entries := by
  obtain ⟨loaded, left⟩ := load_settled answers shown
  obtain ⟨given, written⟩ := compute_settled category key idle
  unfold Cache.getUnless
  rw [lookedUp_bind, leftBy_bind, loaded, left]
  cases found with
  | none => exact ⟨given, written⟩
  | some value =>
    constructor
    · show lookedUp answers (if isInvalid value = true then _ else pure value) entries = _
      rw [invalid value rfl]
      exact given
    · show leftBy answers (if isInvalid value = true then _ else pure value) entries = _
      rw [invalid value rfl]
      exact written

/-- A lookup among right entries gives what is computed without them, and writes that down or
nothing. -/
theorem getUnless_right {isInvalid : α → Bool} {compute : History α}
    (right : ∀ bytes, entries category key = some bytes → ∃ value,
      JsonForm.decode? α bytes = some value ∧
        (isInvalid value = false → lookedUp answers compute entries = .ok value))
    (idle : leftBy answers compute entries = entries) :
    lookedUp answers (Cache.getUnless isInvalid category key compute) entries =
        lookedUp answers compute entries ∧
      (leftBy answers (Cache.getUnless isInvalid category key compute) entries = entries ∨
        ∃ value, lookedUp answers compute entries = .ok value ∧
          leftBy answers (Cache.getUnless isInvalid category key compute) entries =
            entries.put category key (Text.bytes (JsonForm.compact value))) := by
  have anew (found : Option α) (shown : entries.Shows category key found)
      (invalid : ∀ value, found = some value → isInvalid value = true) :
      lookedUp answers (Cache.getUnless isInvalid category key compute) entries =
          lookedUp answers compute entries ∧
        (leftBy answers (Cache.getUnless isInvalid category key compute) entries = entries ∨
          ∃ value, lookedUp answers compute entries = .ok value ∧
            leftBy answers (Cache.getUnless isInvalid category key compute) entries =
              entries.put category key (Text.bytes (JsonForm.compact value))) := by
    obtain ⟨given, written⟩ := getUnless_missing shown invalid idle
    refine ⟨given, ?_⟩
    cases computed : lookedUp answers compute entries with
    | ok value =>
      rw [computed] at written
      exact .inr ⟨value, rfl, written⟩
    | error error =>
      rw [computed] at written
      exact .inl written
  cases held : entries category key with
  | none => exact anew none held nofun
  | some bytes =>
    obtain ⟨value, decoded, valid⟩ := right bytes held
    have shown : entries.Shows category key (some value) := ⟨bytes, held, decoded⟩
    cases invalid : isInvalid value with
    | true => exact anew (some value) shown fun other same => by cases same; exact invalid
    | false =>
      obtain ⟨given, left⟩ := getUnless_shown answers compute shown invalid
      exact ⟨given.trans (valid invalid).symm, .inl left⟩

end

/-- What an attempt gives in settled surroundings if nothing is kept. -/
def computed {α : Type} (answers : Answers) (attempt : History α) : Except HistoryError α :=
  lookedUp answers attempt .empty

/-! ## Attempts that do not depend on what is kept -/

/-- The attempt asks the repository only. -/
def AsksOnly {α : Type} (answers : Answers) (attempt : History α) : Prop :=
  ∀ entries, lookedUp answers attempt entries = computed answers attempt ∧
    leftBy answers attempt entries = entries

/-- From every store of a kind the attempt gives what it gives if nothing is kept. -/
def Settles {α : Type} (answers : Answers) (kind : Entries → Prop) (attempt : History α) : Prop :=
  ∀ entries, kind entries → lookedUp answers attempt entries = computed answers attempt

/-- From every store of a kind the attempt leaves one of that kind. -/
def Stays {α : Type} (answers : Answers) (kind : Entries → Prop) (attempt : History α) : Prop :=
  ∀ entries, kind entries → kind (leftBy answers attempt entries)

section

variable {α β : Type} {answers : Answers} {kind : Entries → Prop}

namespace AsksOnly

theorem pure (value : α) : AsksOnly answers (Pure.pure value : History α) := fun _ => ⟨rfl, rfl⟩

theorem throw (error : HistoryError) :
    AsksOnly answers (MonadExcept.throw error : History α) := fun _ => ⟨rfl, rfl⟩

theorem query (query : Query) : AsksOnly answers (Tracking.query query) := by
  intro entries
  unfold computed
  rw [lookedUp_query, lookedUp_query, leftBy_query]
  exact ⟨rfl, rfl⟩

theorem bind {attempt : History α} {next : α → History β} (first : AsksOnly answers attempt)
    (second : ∀ value, AsksOnly answers (next value)) : AsksOnly answers (attempt >>= next) := by
  intro entries
  unfold computed
  rw [lookedUp_bind, lookedUp_bind, leftBy_bind, (first entries).1, (first entries).2,
    (first .empty).2, (first .empty).1]
  cases computed answers attempt with
  | error error => exact ⟨rfl, rfl⟩
  | ok value => exact second value entries

theorem settles {attempt : History α} (asks : AsksOnly answers attempt) :
    Settles answers kind attempt :=
  fun entries _ => (asks entries).1

theorem stays {attempt : History α} (asks : AsksOnly answers attempt) :
    Stays answers kind attempt := by
  intro entries holds
  rw [(asks entries).2]
  exact holds

end AsksOnly

/-- A sequence gives what its parts give if nothing is kept. -/
theorem Settles.bind {attempt : History α} {next : α → History β} (empty : kind .empty)
    (first : Settles answers kind attempt) (stays : Stays answers kind attempt)
    (second : ∀ value, computed answers attempt = .ok value →
      Settles answers kind (next value)) : Settles answers kind (attempt >>= next) := by
  have parts : ∀ entries, kind entries → lookedUp answers (attempt >>= next) entries =
      computed answers attempt >>= fun value => computed answers (next value) := by
    intro entries holds
    rw [lookedUp_bind, first entries holds]
    cases given : computed answers attempt with
    | error error => rfl
    | ok value => exact second value given _ (stays entries holds)
  intro entries holds
  exact (parts entries holds).trans (parts .empty empty).symm

/-- A sequence whose second part asks the repository only. -/
theorem Settles.bindAsks {attempt : History α} {next : α → History β}
    (first : Settles answers kind attempt) (second : ∀ value, AsksOnly answers (next value)) :
    Settles answers kind (attempt >>= next) := by
  intro entries holds
  unfold computed
  rw [lookedUp_bind, lookedUp_bind, first entries holds]
  show computed answers attempt >>= _ = computed answers attempt >>= _
  cases computed answers attempt with
  | error error => rfl
  | ok value => exact ((second value _).1).trans ((second value _).1).symm

variable [JsonForm α] {category key : String} {isInvalid : α → Bool} {compute : History α}

theorem computed_getUnless (asks : AsksOnly answers compute) :
    computed answers (Cache.getUnless isInvalid category key compute) = computed answers compute :=
  (getUnless_right (fun bytes held => by contradiction) (asks .empty).2).1

/-- A lookup among right entries gives what it gives if nothing is kept. -/
theorem Settles.getUnless (asks : AsksOnly answers compute)
    (right : ∀ entries bytes, kind entries → entries category key = some bytes → ∃ value,
      JsonForm.decode? α bytes = some value ∧
        (isInvalid value = false → computed answers compute = .ok value)) :
    Settles answers kind (Cache.getUnless isInvalid category key compute) := by
  intro entries holds
  have valid : ∀ bytes, entries category key = some bytes → ∃ value,
      JsonForm.decode? α bytes = some value ∧
        (isInvalid value = false → lookedUp answers compute entries = .ok value) := by
    intro bytes held
    obtain ⟨value, decoded, valid⟩ := right entries bytes holds held
    exact ⟨value, decoded, fun isValid => (asks entries).1.trans (valid isValid)⟩
  rw [(getUnless_right valid (asks entries).2).1, (asks entries).1, computed_getUnless asks]

/-- It leaves a store of the kind if that stays one with what was computed. -/
theorem Stays.getUnless (asks : AsksOnly answers compute)
    (right : ∀ entries bytes, kind entries → entries category key = some bytes → ∃ value,
      JsonForm.decode? α bytes = some value ∧
        (isInvalid value = false → computed answers compute = .ok value))
    (put : ∀ entries value, kind entries → computed answers compute = .ok value →
      kind (entries.put category key (Text.bytes (JsonForm.compact value)))) :
    Stays answers kind (Cache.getUnless isInvalid category key compute) := by
  intro entries holds
  have valid : ∀ bytes, entries category key = some bytes → ∃ value,
      JsonForm.decode? α bytes = some value ∧
        (isInvalid value = false → lookedUp answers compute entries = .ok value) := by
    intro bytes held
    obtain ⟨value, decoded, valid⟩ := right entries bytes holds held
    exact ⟨value, decoded, fun isValid => (asks entries).1.trans (valid isValid)⟩
  rcases (getUnless_right valid (asks entries).2).2 with same | ⟨value, given, written⟩
  · rw [same]
    exact holds
  · rw [written]
    exact put entries value holds ((asks entries).1.symm.trans given)

end

/-! ## Fork and merge commits -/

/-- How the fork commit of a commit off the main branch is found. -/
def findFork (main : MainBranch) (commit : CommitId) : History (Option Commit) := do
  let ancestors ← Tracking.query (.ancestors commit)
  match main.firstOn? ancestors with
  | some fork => return some fork
  | none => throw (.inconsistent (.noMainAncestor commit))

/-- How the merge commit of a commit off the main branch is found. -/
def findMerge (main : MainBranch) (commit : CommitId) : History (Option Commit) := do
  let points ← Tracking.query (.mergePoints commit)
  return main.firstOn? points

section

variable {answers : Answers} {main : MainBranch} {commit : CommitId}

theorem forkWithin_off (off : main.contains commit = false) :
    forkWithin main commit = Cache.get forkCategory commit.text (findFork main commit) := by
  unfold forkWithin
  rw [off]
  rfl

theorem mergeWithin_off (off : main.contains commit = false) :
    mergeWithin main commit =
      Cache.getUnless Option.isNone mergeCategory commit.text (findMerge main commit) := by
  unfold mergeWithin
  rw [off]
  rfl

theorem findFork_asksOnly : AsksOnly answers (findFork main commit) := by
  refine .bind (.query _) fun ancestors => ?_
  split
  · exact .pure _
  · exact .throw _

theorem findMerge_asksOnly : AsksOnly answers (findMerge main commit) :=
  .bind (.query _) fun _ => .pure _

/-- A fork commit is the first ancestor on the main branch. -/
theorem computed_findFork {fork : Option Commit} :
    computed answers (findFork main commit) = .ok fork ↔
      ∃ ancestors first, answers (.ancestors commit) = .ok ancestors ∧
        main.firstOn? ancestors = some first ∧ fork = some first := by
  unfold computed findFork
  rw [lookedUp_bind, lookedUp_query, leftBy_query]
  cases answers (.ancestors commit) with
  | error error => exact ⟨nofun, fun ⟨_, _, told, _⟩ => nomatch told⟩
  | ok ancestors =>
    show lookedUp answers (match main.firstOn? ancestors with
      | some fork => pure (some fork)
      | none => throw (.inconsistent (.noMainAncestor commit))) .empty = .ok fork ↔ _
    cases first : main.firstOn? ancestors with
    | none =>
      refine ⟨nofun, fun ⟨other, found, told, isFirst, _⟩ => ?_⟩
      cases told
      rw [first] at isFirst
      contradiction
    | some found =>
      constructor
      · intro given
        cases given
        exact ⟨ancestors, found, rfl, first, rfl⟩
      · intro known
        obtain ⟨other, isFirst, told, same, rfl⟩ := known
        cases told
        rw [first] at same
        cases same
        rfl

/-- A merge commit is the first merge point on the main branch, if there is one. -/
theorem computed_findMerge {merge : Option Commit} :
    computed answers (findMerge main commit) = .ok merge ↔
      ∃ points, answers (.mergePoints commit) = .ok points ∧ merge = main.firstOn? points := by
  unfold computed findMerge
  rw [lookedUp_bind, lookedUp_query, leftBy_query]
  cases answers (.mergePoints commit) with
  | error error => exact ⟨nofun, fun ⟨_, told, _⟩ => nomatch told⟩
  | ok points =>
    constructor
    · intro given
      cases given
      exact ⟨points, rfl, rfl⟩
    · intro known
      obtain ⟨other, told, rfl⟩ := known
      cases told
      rfl

end

/-! ## The main branch -/

/-- The main branch, if it is kept, is the repository's. -/
def MainRight (answers : Answers) (entries : Entries) : Prop :=
  ∀ bytes, entries mainBranchCategory "" = some bytes → ∃ commits,
    JsonForm.decode? (List Commit) bytes = some commits ∧ answers .mainBranch = .ok commits

theorem computed_query {answers : Answers} {query : Query} {value : query.Result}
    (told : answers query = .ok value) : computed answers (Tracking.query query) = .ok value := by
  unfold computed
  rw [lookedUp_query, told]
  rfl

theorem computed_mainBranch {answers : Answers} {main : MainBranch} :
    computed answers mainBranch = .ok main ↔ answers .mainBranch = .ok main.commits := by
  have asked : lookedUp answers (Cache.get mainBranchCategory "" (Tracking.query .mainBranch))
      .empty = (answers .mainBranch).mapError .repository :=
    (computed_getUnless (.query .mainBranch)).trans (lookedUp_query _)
  unfold mainBranch computed
  rw [lookedUp_bind, asked]
  cases answers .mainBranch with
  | error error => exact ⟨nofun, nofun⟩
  | ok commits =>
    constructor
    · intro given
      cases given
      rfl
    · intro told
      cases told
      rfl

namespace MainRight

variable {answers : Answers} {entries : Entries}

private theorem shown (right : MainRight answers entries) (bytes : List UInt8)
    (held : entries mainBranchCategory "" = some bytes) : ∃ commits,
      JsonForm.decode? (List Commit) bytes = some commits ∧
        (false = false → computed answers (Tracking.query .mainBranch) = .ok commits) := by
  obtain ⟨commits, decoded, told⟩ := right bytes held
  exact ⟨commits, decoded, fun _ => computed_query told⟩

/-- The main branch is given as it would be computed. -/
theorem settles : Settles answers (MainRight answers) mainBranch :=
  .bindAsks (.getUnless (.query .mainBranch) fun _ bytes right => right.shown bytes)
    fun _ => .pure _

/-- Looking up the main branch writes down the repository's, or nothing. -/
theorem leftBy_cases (right : MainRight answers entries) :
    leftBy answers mainBranch entries = entries ∨
      ∃ commits, answers .mainBranch = .ok commits ∧ leftBy answers mainBranch entries =
        entries.put mainBranchCategory "" (Text.bytes (JsonForm.compact commits)) := by
  have valid : ∀ bytes, entries mainBranchCategory "" = some bytes → ∃ commits,
      JsonForm.decode? (List Commit) bytes = some commits ∧ (false = false →
        lookedUp answers (Tracking.query .mainBranch) entries = .ok commits) := by
    intro bytes held
    obtain ⟨commits, decoded, given⟩ := right.shown bytes held
    exact ⟨commits, decoded, fun isValid => ((AsksOnly.query _) entries).1.trans (given isValid)⟩
  have lookup := (getUnless_right valid (leftBy_query _)).2
  have left : leftBy answers mainBranch entries =
      leftBy answers (Cache.get mainBranchCategory "" (Tracking.query .mainBranch)) entries := by
    unfold mainBranch
    rw [leftBy_bind]
    cases lookedUp answers (Cache.get mainBranchCategory "" (Tracking.query .mainBranch)) entries
      <;> rfl
  rw [left]
  rcases lookup with same | ⟨commits, given, written⟩
  · exact .inl same
  · refine .inr ⟨commits, ?_, written⟩
    rw [lookedUp_query] at given
    cases told : answers .mainBranch with
    | error error =>
      rw [told] at given
      contradiction
    | ok other =>
      rw [told] at given
      cases given
      rfl

/-- Looking up the main branch leaves every other entry alone. -/
theorem leftBy_mainBranch (right : MainRight answers entries) {category : String}
    (other : category ≠ mainBranchCategory) (key : String) :
    leftBy answers mainBranch entries category key = entries category key := by
  rcases right.leftBy_cases with same | ⟨commits, -, written⟩
  · rw [same]
  · rw [written]
    exact Entries.put_of_category other

/-- A call that starts with the main branch goes on with the repository's. -/
theorem lookedUp_withMain {α : Type} (right : MainRight answers entries) {main : MainBranch}
    (told : answers .mainBranch = .ok main.commits) (rest : MainBranch → History α) :
    lookedUp answers (mainBranch >>= rest) entries =
      lookedUp answers (rest main) (leftBy answers mainBranch entries) := by
  rw [lookedUp_bind, settles entries right, computed_mainBranch.2 told]
  rfl

end MainRight

/-! ## Coherent stores -/

/-- Each entry holds what would be computed from the repository's answers and its main branch;
that no merge was found may also be kept. Entries for fork commits count only if `forks` says
so. -/
structure Coherent (answers : Answers) (forks : Bool) (entries : Entries) : Prop where
  main : ∀ {bytes}, entries mainBranchCategory "" = some bytes → ∃ commits,
    JsonForm.decode? (List Commit) bytes = some commits ∧ answers .mainBranch = .ok commits
  fork : ∀ {commit : CommitId} {bytes commits}, forks = true →
    entries forkCategory commit.text = some bytes → answers .mainBranch = .ok commits →
      (MainBranch.mk commits).contains commit = false → ∃ value,
        JsonForm.decode? (Option Commit) bytes = some value ∧
          computed answers (findFork ⟨commits⟩ commit) = .ok value
  merge : ∀ {commit : CommitId} {bytes commits},
    entries mergeCategory commit.text = some bytes → answers .mainBranch = .ok commits →
      (MainBranch.mk commits).contains commit = false → ∃ value,
        JsonForm.decode? (Option Commit) bytes = some value ∧
          (value = none ∨ computed answers (findMerge ⟨commits⟩ commit) = .ok value)
  last : ∀ {path : Path} {bytes}, entries lastCommitCategory path.key = some bytes →
    ∃ value, JsonForm.decode? (Option Commit) bytes = some value ∧
      answers (.lastCommit path) = .ok value
  commitsAfter : ∀ {path : Path} {bytes}, entries commitsAfterCategory path.key = some bytes →
    ∃ starts, JsonForm.decode? CommitsByStart bytes = some starts ∧
      ∀ start commits, starts.get? start = some commits →
        answers (.commitsAfter path start) = .ok commits

namespace Coherent

variable {answers : Answers} {forks : Bool} {entries : Entries}

theorem empty : Coherent answers forks .empty :=
  ⟨nofun, nofun, nofun, nofun, nofun⟩

theorem put_main (coherent : Coherent answers forks entries) {commits : List Commit}
    (told : answers .mainBranch = .ok commits) :
    Coherent answers forks
      (entries.put mainBranchCategory "" (Text.bytes (JsonForm.compact commits))) where
  main held := by
    rw [Entries.put_self] at held
    cases held
    exact ⟨commits, JsonForm.decode_compact commits, told⟩
  fork counts held := coherent.fork counts (Entries.of_put (by decide) held)
  merge held := coherent.merge (Entries.of_put (by decide) held)
  last held := coherent.last (Entries.of_put (by decide) held)
  commitsAfter held := coherent.commitsAfter (Entries.of_put (by decide) held)

/-! ### Lookups -/

theorem mainRight (coherent : Coherent answers forks entries) : MainRight answers entries :=
  fun _ held => coherent.main held

theorem mainBranch_settles : Settles answers (Coherent answers forks) mainBranch :=
  fun entries coherent => MainRight.settles entries coherent.mainRight

theorem mainBranch_stays : Stays answers (Coherent answers forks) mainBranch := by
  intro entries coherent
  rcases coherent.mainRight.leftBy_cases with same | ⟨commits, told, written⟩
  · rw [same]
    exact coherent
  · rw [written]
    exact coherent.put_main told

theorem settles_withMain {α : Type} {rest : MainBranch → History α}
    (settles : ∀ main, answers .mainBranch = .ok main.commits →
      Settles answers (Coherent answers forks) (rest main)) :
    Settles answers (Coherent answers forks) (mainBranch >>= rest) :=
  .bind .empty mainBranch_settles mainBranch_stays fun main given =>
    settles main (computed_mainBranch.1 given)

theorem forkWithin_settles {main : MainBranch} (told : answers .mainBranch = .ok main.commits)
    (counts : forks = true) (commit : CommitId) :
    Settles answers (Coherent answers forks) (forkWithin main commit) := by
  cases on : main.contains commit with
  | true =>
    unfold forkWithin
    rw [on]
    exact (AsksOnly.pure _).settles
  | false =>
    rw [forkWithin_off on]
    refine .getUnless findFork_asksOnly fun entries bytes coherent held => ?_
    obtain ⟨value, decoded, given⟩ := coherent.fork counts held told on
    exact ⟨value, decoded, fun _ => given⟩

theorem mergeWithin_settles {main : MainBranch} (told : answers .mainBranch = .ok main.commits)
    (commit : CommitId) :
    Settles answers (Coherent answers forks) (mergeWithin main commit) := by
  cases on : main.contains commit with
  | true =>
    unfold mergeWithin
    rw [on]
    exact (AsksOnly.pure _).settles
  | false =>
    rw [mergeWithin_off on]
    refine .getUnless findMerge_asksOnly fun entries bytes coherent held => ?_
    obtain ⟨value, decoded, none | given⟩ := coherent.merge held told on
    · refine ⟨value, decoded, fun isSome => ?_⟩
      rw [none] at isSome
      contradiction
    · exact ⟨value, decoded, fun _ => given⟩

theorem mergeFilesWithin_settles {main : MainBranch}
    (told : answers .mainBranch = .ok main.commits) (counts : forks = true) (merge : CommitId) :
    Settles answers (Coherent answers forks) (mergeFilesWithin main merge) := by
  unfold mergeFilesWithin
  refine .bind .empty (AsksOnly.query _).settles (AsksOnly.query _).stays fun parents _ => ?_
  split
  · exact (AsksOnly.pure _).settles
  · exact (AsksOnly.pure _).settles
  · split
    · apply (forkWithin_settles told counts _).bindAsks
      intro fork
      cases fork with
      | some fork => exact .query _
      | none => exact .throw _
    · exact (AsksOnly.throw _).settles
  · exact (AsksOnly.throw _).settles

theorem lastCommit_settles (path : Path) :
    Settles answers (Coherent answers forks) (lastCommit path) := by
  refine .getUnless (.query _) fun entries bytes coherent held => ?_
  obtain ⟨value, decoded, told⟩ := coherent.last held
  exact ⟨value, decoded, fun _ => computed_query told⟩

/-- A lookup of later commits among right entries gives the repository's answer, and writes that
down or nothing. -/
theorem commitsAfter_given {path : Path} {start : CommitId} (kept : Option CommitsByStart)
    (shown : entries.Shows commitsAfterCategory path.key kept)
    (right : ∀ commits, (kept.getD .empty).get? start = some commits →
      answers (.commitsAfter path start) = .ok commits) :
    lookedUp answers (History.commitsAfter path start) entries =
        (answers (.commitsAfter path start)).mapError .repository ∧
      (leftBy answers (History.commitsAfter path start) entries = entries ∨
        ∃ commits, answers (.commitsAfter path start) = .ok commits ∧
          leftBy answers (History.commitsAfter path start) entries =
            entries.put commitsAfterCategory path.key (Text.bytes (JsonForm.compact
              ((kept.getD .empty).insert start commits)))) := by
  obtain ⟨loaded, left⟩ := load_settled answers shown
  unfold History.commitsAfter
  rw [lookedUp_bind, leftBy_bind, loaded, left]
  show lookedUp answers _ entries = _ ∧ (leftBy answers _ entries = entries ∨ _)
  cases found : (kept.getD .empty).get? start with
  | some commits =>
    rw [right commits found]
    simp only [found]
    exact ⟨rfl, .inl rfl⟩
  | none =>
    simp only [found]
    rw [lookedUp_bind, leftBy_bind, lookedUp_query, leftBy_query]
    cases told : answers (.commitsAfter path start) with
    | error error => exact ⟨rfl, .inl rfl⟩
    | ok commits =>
      obtain ⟨written, stored⟩ := put_settled answers entries commitsAfterCategory path.key
        ((kept.getD .empty).insert start commits)
      refine ⟨?_, .inr ⟨commits, rfl, ?_⟩⟩
      · show lookedUp answers (Attempt.mapError .cache (Cache.put commitsAfterCategory path.key
          ((kept.getD .empty).insert start commits)) >>= fun _ => pure commits) entries =
            .ok commits
        rw [lookedUp_bind, written]
        rfl
      · show leftBy answers (Attempt.mapError .cache (Cache.put commitsAfterCategory path.key
          ((kept.getD .empty).insert start commits)) >>= fun _ => pure commits) entries = _
        rw [leftBy_bind, written]
        exact stored

theorem commitsAfter_settles (path : Path) (start : CommitId) :
    Settles answers (Coherent answers forks) (History.commitsAfter path start) := by
  intro entries coherent
  have absent : Entries.empty.Shows commitsAfterCategory path.key (none : Option CommitsByStart) :=
    rfl
  have scratch : computed answers (History.commitsAfter path start) =
      (answers (.commitsAfter path start)).mapError .repository :=
    (commitsAfter_given none absent nofun).1
  rw [scratch]
  cases held : entries commitsAfterCategory path.key with
  | none => exact (commitsAfter_given none held nofun).1
  | some bytes =>
    obtain ⟨starts, decoded, right⟩ := coherent.commitsAfter held
    exact (commitsAfter_given (some starts) ⟨bytes, held, decoded⟩ (right start)).1

end Coherent

/-! ## Lookups of the history -/

namespace Call

/-- Whether a call looks up a commit or a file in the history. -/
def LooksUp : Call → Prop
  | isOnMain _ | fork _ | merge _ | mergeFiles _ | lastCommit _ | commitsAfter _ _ => True
  | _ => False

/-- Whether a lookup uses fork commits. -/
def usesForks : Call → Bool
  | fork _ | mergeFiles _ => true
  | _ => false

end Call

/-- From a coherent store every lookup gives what it gives if nothing is kept. -/
theorem Coherent.settles {answers : Answers} {forks : Bool} (call : Call) (looksUp : call.LooksUp)
    (counts : call.usesForks = true → forks = true) :
    Settles answers (Coherent answers forks) call.attempt := by
  cases call with
  | isOnMain commit => exact mainBranch_settles.bindAsks fun _ => .pure _
  | fork commit =>
    exact settles_withMain fun main told => forkWithin_settles told (counts rfl) commit
  | merge commit => exact settles_withMain fun main told => mergeWithin_settles told commit
  | mergeFiles merge =>
    exact settles_withMain fun main told => mergeFilesWithin_settles told (counts rfl) merge
  | lastCommit path => exact lastCommit_settles path
  | commitsAfter path start => exact commitsAfter_settles path start
  | _ => cases looksUp

end LocaleWatch
