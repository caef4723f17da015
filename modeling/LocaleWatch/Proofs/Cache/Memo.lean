import Mathlib.Logic.Function.Basic
import LocaleWatch.Proofs.Calm
import LocaleWatch.Proofs.Events

/-!
# The cache as a memo table

A memo table holds under each category and key nothing, a value, or something that cannot be read.
The cache is one: a value is given exactly if it was put or computed last under its own category
and key and not dropped since, and what a lookup does is settled by what the table holds there.
The table changes only when a call succeeds, and only under the key of the call.

What a call did is told by its events, since only they can be seen from outside. The events of a
computation stand among those of its lookup once or not at all.

## Main results

* `MemoCall.Serves`, `Surroundings.serves` — how one call goes, and what it leaves.
* `Surroundings.cache_remembers` — how any call goes after any others.
-/

namespace LocaleWatch

open Attempt

/-! ## Memo tables -/

/-- What is held under each category and key: nothing, something that cannot be read, or a value. -/
abbrev Memo (V : String → String → Type) : Type :=
  (category key : String) → Option (Option (V category key))

namespace Memo

variable {V : String → String → Type} {memo : Memo V} {category key : String}
  {reading : Option (Option (V category key))}

/-- The table with something else under a category and key. -/
def set (memo : Memo V) (category key : String) (reading : Option (Option (V category key))) :
    Memo V :=
  Function.update memo category (Function.update (memo category) key reading)

@[simp] theorem set_self : memo.set category key reading category key = reading := by
  simp [set]

theorem set_of_ne {other name : String} (ne : ¬(other = category ∧ name = key)) :
    memo.set category key reading other name = memo other name := by
  unfold set
  by_cases same : other = category
  · subst same
    have differ : name ≠ key := fun sameKey => ne ⟨rfl, sameKey⟩
    rw [Function.update_self, Function.update_of_ne differ]
  · rw [Function.update_of_ne same]

/-- Whether there is a valid value. -/
def hasValid (memo : Memo V) (category key : String) (isInvalid : V category key → Bool) : Bool :=
  match memo category key with
  | some (some value) => !isInvalid value
  | _ => false

end Memo

namespace Entries

variable (V : String → String → Type) [∀ category key, JsonForm (V category key)]

/-- The entries as a memo table. -/
def memo (entries : Entries) : Memo V := fun category key =>
  (entries category key).map (JsonForm.decode? (V category key))

variable {V} {entries : Entries} {category key : String}

theorem memo_put [FaithfulForm (V category key)] (value : V category key) :
    (entries.put category key (Text.bytes (JsonForm.compact value))).memo V =
      (entries.memo V).set category key (some (some value)) := by
  funext other name
  by_cases same : other = category ∧ name = key
  · obtain ⟨rfl, rfl⟩ := same
    simp only [memo, put_self, Memo.set_self, Option.map_some, JsonForm.decode_compact]
  · rw [Memo.set_of_ne same]
    simp only [memo, put_of_ne same]

/-- A value is valid in the table if an entry shows it and it is valid. -/
theorem hasValid_memo {isInvalid : V category key → Bool} :
    (entries.memo V).hasValid category key isInvalid = true ↔
      ∃ value, entries.Shows category key (some value) ∧ isInvalid value = false := by
  have shows_iff (value : V category key) : entries.Shows category key (some value) ↔
      entries.memo V category key = some (some value) :=
    Entries.shows_iff.trans decodes_iff
  simp only [shows_iff, Memo.hasValid]
  rcases entries.memo V category key with _ | _ | value <;> simp

theorem memo_remove :
    (entries.remove category key).memo V = (entries.memo V).set category key none := by
  funext other name
  by_cases same : other = category ∧ name = key
  · obtain ⟨rfl, rfl⟩ := same
    simp only [memo, remove_self, Memo.set_self, Option.map_none]
  · rw [Memo.set_of_ne same]
    simp only [memo, remove_of_ne same]

end Entries

/-! ## Calls -/

/-- A call of the cache. What a lookup computes leaves the store alone. `Cache.get` is the lookup
whose entries are never invalid. -/
inductive MemoCall (V : String → String → Type) where
  | load (category key : String)
  | getUnless (category key : String) (isInvalid : V category key → Bool)
    (compute : History (V category key))
    (spares : Asks (Tracking.Request.sparesEntries · = true) compute)
  | put (category key : String) (value : V category key)
  | drop (category key : String)

namespace MemoCall

variable {V : String → String → Type}

/-- What a call gives. -/
@[reducible] def Result : MemoCall V → Type
  | load category key => Option (V category key)
  | getUnless category key _ _ _ => V category key
  | put _ _ _ | drop _ _ => Unit

variable [∀ category key, JsonForm (V category key)]

/-- How a call is carried out. -/
def attempt : (call : MemoCall V) → History call.Result
  | load category key => Attempt.mapError .cache (Cache.load (V category key) category key)
  | getUnless category key isInvalid compute _ => Cache.getUnless isInvalid category key compute
  | put category key value => Attempt.mapError .cache (Cache.put category key value)
  | drop category key => Attempt.mapError .cache (Cache.drop category key)

/-- How a call goes on a memo table: its events, and what it gives. -/
def Goes (memo : Memo V) :
    (call : MemoCall V) → List (Event Tracking) → Except HistoryError call.Result → Prop
  | load category key, events, result =>
    ∃ told, Loading category key (memo category key) events told ∧ result = told.mapError .cache
  | getUnless category key isInvalid compute _, events, result =>
    Lookup isInvalid category key compute (memo category key) events result
  | put category key value, events, result =>
    ∃ told, Writing category key value events told ∧ result = told.mapError .cache
  | drop category key, events, result =>
    ∃ told, events = [.delete category key told] ∧ result = told.mapError .cache

omit [∀ category key, JsonForm (V category key)] in
/-- The table after a call: what was put or computed is remembered, what was dropped is not, and a
call that failed changed nothing. -/
def remembered (memo : Memo V) : (call : MemoCall V) → Except HistoryError call.Result → Memo V
  | load _ _, _ => memo
  | getUnless category key isInvalid _ _, .ok value =>
    if memo.hasValid category key isInvalid then memo
    else memo.set category key (some (some value))
  | put category key value, .ok () => memo.set category key (some (some value))
  | drop category key, .ok () => memo.set category key none
  | getUnless _ _ _ _ _, .error _ | put _ _ _, .error _ | drop _ _, .error _ => memo

end MemoCall

/-! ## One call -/

section

variable {α : Type} [JsonForm α] {category key : String} {events : List (Event Tracking)}
  {entries last : Entries}

/-- What is looked up in some entries is what they hold, and they are left alone. -/
theorem Loading.among {reading : Option (Option α)} {result : Except CacheError (Option α)}
    (loading : Loading category key reading events result) (leads : entries.Leads events last) :
    Loading category key ((entries category key).map (JsonForm.decode? α)) events result ∧
      last = entries := by
  cases loading with
  | cancelled =>
    obtain ⟨-, same⟩ := leads
    exact ⟨.cancelled, same⟩
  | refused =>
    obtain ⟨-, -, same⟩ := leads
    exact ⟨.refused, same⟩
  | unreadable reads isUnreadable =>
    obtain ⟨-, held, same⟩ := leads
    have here : entries category key = _ := held
    rw [here, reads]
    exact ⟨.unreadable reads isUnreadable, same⟩
  | found reads isFound =>
    obtain ⟨-, held, same⟩ := leads
    have here : entries category key = _ := held
    rw [here, reads]
    exact ⟨.found reads isFound, same⟩

/-- A value that was found is what the entry is read as. -/
theorem Loading.reading_eq {reading : Option (Option α)} {found : Option α}
    (loading : Loading category key reading events (.ok found)) : reading = found.map some := by
  cases loading with
  | found reads isFound => exact isFound

/-- Writing a value down puts it among the entries, or fails and leaves them alone. -/
theorem Writing.leads {value : α} {result : Except CacheError Unit}
    (writing : Writing category key value events result) (leads : entries.Leads events last) :
    match result with
    | .ok () => last = entries.put category key (Text.bytes (JsonForm.compact value))
    | .error _ => last = entries := by
  cases writing with
  | cancelled => exact leads.2
  | asked =>
    obtain ⟨-, -, same⟩ := leads
    cases result with
    | ok done => exact same
    | error error => exact same

/-- A lookup whose computation leaves the store alone goes by what the entry holds. What it gives
was held there and is valid, or it is written there; if it fails, the entries are as before. -/
theorem Lookup.among {isInvalid : α → Bool} {compute : History α} {reading : Option (Option α)}
    {result : Except HistoryError α}
    (lookup : Lookup isInvalid category key compute reading events result)
    (spares : Asks (Tracking.Request.sparesEntries · = true) compute)
    (leads : entries.Leads events last) :
    Lookup isInvalid category key compute ((entries category key).map (JsonForm.decode? α)) events
        result ∧
      match result with
      | .ok value =>
        (entries.Shows category key (some value) ∧ isInvalid value = false ∧ last = entries) ∨
          ((∀ old, entries.Shows category key (some old) → isInvalid old = true) ∧
            last = entries.put category key (Text.bytes (JsonForm.compact value)))
      | .error _ => last = entries := by
  have invalidShown {found : Option α}
      (shown : (entries category key).map (JsonForm.decode? α) = found.map some)
      (invalid : ∀ value, found = some value → isInvalid value = true) (old : α)
      (showsOld : entries.Shows category key (some old)) : isInvalid old = true := by
    have decodes : entries.Shows category key found :=
      Entries.shows_iff.2 (decodes_iff.2 shown)
    exact invalid old (decodes.unique showsOld)
  cases lookup with
  | unread loading =>
    obtain ⟨loads, same⟩ := loading.among leads
    exact ⟨.unread loads, same⟩
  | kept loading valid =>
    obtain ⟨loads, same⟩ := loading.among leads
    have shown := Entries.shows_iff.2 (decodes_iff.2 loads.reading_eq)
    exact ⟨.kept loads valid, .inl ⟨shown, valid, same⟩⟩
  | uncomputed loading invalid computes =>
    obtain ⟨between, first, second⟩ := Entries.leads_append.1 leads
    obtain ⟨loads, rfl⟩ := loading.among first
    exact ⟨.uncomputed loads invalid computes, Entries.leads_spared (spares.ends computes) second⟩
  | unwritten loading invalid computes writing =>
    obtain ⟨_, first, second⟩ := Entries.leads_append.1 leads
    obtain ⟨_, computing, third⟩ := Entries.leads_append.1 second
    obtain ⟨loads, rfl⟩ := loading.among first
    have idle := Entries.leads_spared (spares.ends computes) computing
    subst idle
    exact ⟨.unwritten loads invalid computes writing, writing.leads third⟩
  | computed loading invalid computes writing =>
    obtain ⟨_, first, second⟩ := Entries.leads_append.1 leads
    obtain ⟨_, computing, third⟩ := Entries.leads_append.1 second
    obtain ⟨loads, rfl⟩ := loading.among first
    have idle := Entries.leads_spared (spares.ends computes) computing
    subst idle
    exact ⟨.computed loads invalid computes writing,
      .inr ⟨invalidShown loads.reading_eq invalid, writing.leads third⟩⟩

end

/-! ## Every call -/

namespace MemoCall

variable {V : String → String → Type} [∀ category key, JsonForm (V category key)]
  {category key : String} {entries last : Entries} {events : List (Event Tracking)}

/-- A call goes by what the entries remember, and is remembered; if it fails, they are as before. -/
structure Serves (entries : Entries) (call : MemoCall V) (events : List (Event Tracking))
    (result : Except HistoryError call.Result) (last : Entries) : Prop where
  goes : call.Goes (entries.memo V) events result
  remembers : last.memo V = call.remembered (entries.memo V) result
  fails : ∀ error, result = .error error → last = entries

theorem serves_load {result : Except HistoryError (Option (V category key))}
    (ends : Ends (load category key : MemoCall V).attempt events result)
    (leads : entries.Leads events last) :
    (load category key : MemoCall V).Serves entries events result last := by
  obtain ⟨told, loads, rfl⟩ := ends_mapError.1 ends
  obtain ⟨reading, loading⟩ := ends_load loads
  obtain ⟨shown, rfl⟩ := loading.among leads
  exact ⟨⟨told, shown, rfl⟩, rfl, fun _ _ => rfl⟩

theorem serves_drop {result : Except HistoryError Unit}
    (ends : Ends (drop category key : MemoCall V).attempt events result)
    (leads : entries.Leads events last) :
    (drop category key : MemoCall V).Serves entries events result last := by
  obtain ⟨told, drops, rfl⟩ := ends_mapError.1 ends
  obtain rfl := ends_drop.1 drops
  obtain ⟨-, same⟩ := leads
  cases told with
  | ok done =>
    obtain rfl : last = entries.remove category key := same
    exact ⟨⟨_, rfl, rfl⟩, Entries.memo_remove, nofun⟩
  | error error =>
    obtain rfl : last = entries := same
    exact ⟨⟨_, rfl, rfl⟩, rfl, fun _ _ => rfl⟩

variable [FaithfulForm (V category key)]

theorem serves_put {value : V category key} {result : Except HistoryError Unit}
    (ends : Ends (put category key value).attempt events result)
    (leads : entries.Leads events last) :
    (put category key value).Serves entries events result last := by
  obtain ⟨told, puts, rfl⟩ := ends_mapError.1 ends
  have writing := ends_put puts
  have written := writing.leads leads
  cases told with
  | ok done =>
    subst written
    exact ⟨⟨_, writing, rfl⟩, Entries.memo_put value, nofun⟩
  | error error =>
    subst written
    exact ⟨⟨_, writing, rfl⟩, rfl, fun _ _ => rfl⟩

theorem serves_getUnless {isInvalid : V category key → Bool} {compute : History (V category key)}
    {spares : Asks (Tracking.Request.sparesEntries · = true) compute}
    {result : Except HistoryError (V category key)}
    (ends : Ends (getUnless category key isInvalid compute spares).attempt events result)
    (leads : entries.Leads events last) :
    (getUnless category key isInvalid compute spares).Serves entries events result last := by
  obtain ⟨reading, lookup⟩ := ends_getUnless ends
  obtain ⟨shown, left⟩ := lookup.among spares leads
  cases result with
  | error error =>
    obtain rfl : last = entries := left
    exact ⟨shown, rfl, fun _ _ => rfl⟩
  | ok value =>
    refine ⟨shown, ?_, nofun⟩
    rcases left with ⟨shows, valid, rfl⟩ | ⟨invalid, rfl⟩
    · exact (if_pos (Entries.hasValid_memo.2 ⟨value, shows, valid⟩)).symm
    · have none : (entries.memo V).hasValid category key isInvalid ≠ true := by
        intro valid
        obtain ⟨old, shows, isValid⟩ := Entries.hasValid_memo.1 valid
        rw [invalid old shows] at isValid
        contradiction
      exact (Entries.memo_put value).trans (if_neg none).symm

end MemoCall

namespace Surroundings

variable {σ : Type} {V : String → String → Type} [∀ category key, JsonForm (V category key)]

theorem serves [∀ category key, FaithfulForm (V category key)] (S : Surroundings σ)
    (call : MemoCall V) (state : σ) :
    call.Serves (S.entries state) (S.trace call.attempt state) (S.result call.attempt state)
      (S.entries (S.after call.attempt state)) := by
  have leads := S.leads call.attempt state
  have ends := S.ends_trace call.attempt state
  cases call with
  | load category key => exact MemoCall.serves_load ends leads
  | put category key value => exact MemoCall.serves_put ends leads
  | drop category key => exact MemoCall.serves_drop ends leads
  | getUnless category key isInvalid compute spares => exact MemoCall.serves_getUnless ends leads

/-! ## Sequences of calls -/

/-- The state after some calls, one after the other, whatever comes of them. -/
def afterAll (S : Surroundings σ) : List (MemoCall V) → σ → σ
  | [], state => state
  | call :: calls, state => S.afterAll calls (S.after call.attempt state)

/-- What a table remembers after some calls: under each category and key what was put or computed
there last, unless it was dropped since. -/
def remembered (S : Surroundings σ) : List (MemoCall V) → σ → Memo V → Memo V
  | [], _, memo => memo
  | call :: calls, state, memo =>
    S.remembered calls (S.after call.attempt state)
      (call.remembered memo (S.result call.attempt state))

variable [∀ category key, FaithfulForm (V category key)]

/-- The entries hold what is remembered. -/
theorem memo_afterAll (S : Surroundings σ) (calls : List (MemoCall V)) (state : σ) :
    (S.entries (S.afterAll calls state)).memo V =
      S.remembered calls state ((S.entries state).memo V) := by
  induction calls generalizing state with
  | nil => rfl
  | cons call calls ih =>
    rw [afterAll, remembered, ih, (S.serves call state).remembers]

/-- After any calls, each call goes by what is remembered, and is remembered itself. One that fails
leaves every entry as it was. -/
theorem cache_remembers (S : Surroundings σ) (calls : List (MemoCall V)) (state : σ)
    (call : MemoCall V) :
    let memo := S.remembered calls state ((S.entries state).memo V)
    let now := S.afterAll calls state
    (S.entries now).memo V = memo ∧
      call.Goes memo (S.trace call.attempt now) (S.result call.attempt now) ∧
      (S.entries (S.after call.attempt now)).memo V =
        call.remembered memo (S.result call.attempt now) ∧
      ∀ error, S.result call.attempt now = .error error →
        S.entries (S.after call.attempt now) = S.entries now := by
  intro memo now
  have remembers : (S.entries now).memo V = memo := S.memo_afterAll calls state
  have serves := S.serves call now
  exact ⟨remembers, remembers ▸ serves.goes, remembers ▸ serves.remembers, serves.fails⟩

/-- It is put down that a branch is not merged, and then looked up whether it is. -/
def mergeSought : List (MemoCall fun _ _ => Option Commit) :=
  [.put "merge_commit" "s2" none,
    .getUnless "merge_commit" "s2" Option.isNone (pure (some mergeCommit)) (.pure _)]

/-- The merge that was found is remembered, and it is given. -/
theorem cache_remembers_merge :
    let now := onePage.afterAll mergeSought (false, .empty)
    let call : MemoCall fun _ _ => Option Commit := .load "merge_commit" "s2"
    (onePage.entries now).memo (fun _ _ => Option Commit) "merge_commit" "s2" =
        some (some (some mergeCommit)) ∧
      onePage.result call.attempt now = .ok (some (some mergeCommit)) := by
  have found : onePage.remembered mergeSought (false, .empty)
      ((onePage.entries (false, .empty)).memo _) "merge_commit" "s2" =
        some (some (some mergeCommit)) := by
    decide +kernel
  obtain ⟨remembers, ⟨told, loading, given⟩, -, -⟩ :=
    onePage.cache_remembers mergeSought (false, .empty) (.load "merge_commit" "s2")
  refine ⟨(congrFun (congrFun remembers _) _).trans found, given.trans ?_⟩
  rw [found] at loading
  have asked : ∃ held, onePage.trace (MemoCall.attempt (V := fun _ _ => Option Commit)
      (.load "merge_commit" "s2")) (onePage.afterAll mergeSought (false, .empty)) =
        [.isCancelled false, .read "merge_commit" "s2" (.ok held)] := ⟨_, rfl⟩
  obtain ⟨held, asked⟩ := asked
  rw [asked] at loading
  cases loading with
  | unreadable reads isUnreadable => cases isUnreadable
  | @found _ other reads isFound =>
    cases other with
    | none => cases isFound
    | some value =>
      cases isFound
      rfl

end Surroundings

end LocaleWatch
