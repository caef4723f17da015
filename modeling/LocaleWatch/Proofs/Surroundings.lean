import LocaleWatch.Proofs.Program.Triple
import LocaleWatch.Tracking

/-!
# Surroundings

A program of the tracker runs among a repository, a store and a token that cancels it.
Nothing is assumed of when they refuse a request, of when the run is cancelled, or of what
the repository says. Two things are: an answer is the one that the repository gives in
that state, and the store holds what was written last, unless it was removed. A write or a
removal that is refused leaves the store as it was.

## Main results

* `Surroundings.keeps_query` — a question gives the answer of a state of the kept kind.
* `Surroundings.holding_undisturbed` — answers that only an order changes, together with
  any property of the entries, are kept by every request that is neither an order nor a
  change of the store.
-/

namespace LocaleWatch

/-! ## Entries of the store -/

/-- What a store holds: bytes under a category and a key. -/
abbrev Entries : Type := String → String → Option (List UInt8)

namespace Entries

variable {category key : String} {bytes : List UInt8} {entries : Entries}

/-- Nothing is stored. -/
def empty : Entries := fun _ _ => none

/-- The entries with one more, or with another value in its place. -/
def put (entries : Entries) (category key : String) (bytes : List UInt8) : Entries :=
  fun other name => if other = category ∧ name = key then some bytes else entries other name

/-- The entries without one of them. -/
def remove (entries : Entries) (category key : String) : Entries :=
  fun other name => if other = category ∧ name = key then none else entries other name

@[simp] theorem put_self : entries.put category key bytes category key = some bytes := by
  simp [put]

theorem put_of_ne {other name : String} (ne : ¬(other = category ∧ name = key)) :
    entries.put category key bytes other name = entries other name :=
  if_neg ne

@[simp] theorem put_of_category {other name : String} (ne : other ≠ category) :
    entries.put category key bytes other name = entries other name :=
  put_of_ne fun same => ne same.1

/-- What is held after something was put in was held before, or is just that. -/
theorem put_cases {other name : String} {found : List UInt8}
    (held : entries.put category key bytes other name = some found) :
    (other = category ∧ name = key ∧ bytes = found) ∨ entries other name = some found := by
  by_cases same : other = category ∧ name = key
  · rw [same.1, same.2, put_self] at held
    exact .inl ⟨same.1, same.2, Option.some.inj held⟩
  · rw [put_of_ne same] at held
    exact .inr held

/-- What is held elsewhere was held before. -/
theorem of_put {other name : String} {found : List UInt8} (ne : other ≠ category)
    (held : entries.put category key bytes other name = some found) :
    entries other name = some found :=
  (put_of_category ne).symm.trans held

/-- What is missing was missing before. -/
theorem absent_of_put {other name : String}
    (absent : entries.put category key bytes other name = none) : entries other name = none := by
  unfold put at absent
  split at absent
  · contradiction
  · exact absent

@[simp] theorem remove_self : entries.remove category key category key = none := by
  simp [remove]

theorem remove_of_ne {other name : String} (ne : ¬(other = category ∧ name = key)) :
    entries.remove category key other name = entries other name :=
  if_neg ne

@[simp] theorem remove_of_category {other name : String} (ne : other ≠ category) :
    entries.remove category key other name = entries other name :=
  remove_of_ne fun same => ne same.1

/-- What is held after a removal was held before, or is missing. -/
theorem remove_cases {other name : String} :
    entries.remove category key other name = entries other name ∨
      entries.remove category key other name = none := by
  unfold remove
  split
  · exact .inr rfl
  · exact .inl rfl

/-- A removal adds nothing. -/
theorem of_remove {other name : String}
    (held : entries.remove category key other name = some bytes) :
    entries other name = some bytes := by
  unfold remove at held
  split at held
  · contradiction
  · exact held

end Entries

/-! ## Requests -/

/-- Whether a query is one of the two orders. -/
def Query.isOrder : Query → Bool
  | .fetch | .pull => true
  | _ => false

theorem Query.pull_isOrder (query : Query) (isPull : query = .pull) : query.isOrder = true := by
  rw [isPull]
  rfl

/-- Whether a request is neither an order nor a change of the store. -/
def Tracking.Request.isQuiet : Tracking.Request → Bool
  | .isCancelled | .cancel | .read _ _ | .holds _ _ => true
  | .query asked => !asked.isOrder
  | .write _ _ _ | .delete _ _ => false

/-- Whether a request is no change of the store. -/
def Tracking.Request.sparesEntries : Tracking.Request → Bool
  | .write _ _ _ | .delete _ _ => false
  | _ => true

theorem Tracking.Request.sparesEntries_of_isQuiet {request : Tracking.Request}
    (quiet : request.isQuiet = true) : request.sparesEntries = true := by
  cases request with
  | write category key bytes => cases quiet
  | delete category key => cases quiet
  | _ => rfl

/-! ## Surroundings -/

/-- What a repository answers. -/
abbrev Answers : Type := (query : Query) → Except RepositoryError query.Result

/-- A repository, a store and a token, as a program of the tracker meets them. -/
structure Surroundings (σ : Type) where
  handler : Program.Handler Tracking σ
  entries : σ → Entries
  answer : σ → Answers
  answer_of_ok : ∀ {query : Query} {state : σ} {value : query.Result},
    (handler (.query query) state).1 = (.ok value : Except RepositoryError query.Result) →
      answer state query = .ok value
  entry_of_read : ∀ {category key : String} {state : σ} {found : Option (List UInt8)},
    (handler (.read category key) state).1 = (.ok found : Except CacheError _) →
      entries state category key = found
  entries_write : ∀ {category key : String} {bytes : List UInt8} {state : σ},
    (handler (.write category key bytes) state).1 = (.ok () : Except CacheError Unit) →
      entries (handler (.write category key bytes) state).2 =
        (entries state).put category key bytes
  entries_write_refused : ∀ {category key : String} {bytes : List UInt8} {state : σ}
    {error : CacheError},
    (handler (.write category key bytes) state).1 = (.error error : Except CacheError Unit) →
      entries (handler (.write category key bytes) state).2 = entries state
  entries_delete : ∀ {category key : String} {state : σ},
    (handler (.delete category key) state).1 = (.ok () : Except CacheError Unit) →
      entries (handler (.delete category key) state).2 = (entries state).remove category key
  entries_delete_refused : ∀ {category key : String} {state : σ} {error : CacheError},
    (handler (.delete category key) state).1 = (.error error : Except CacheError Unit) →
      entries (handler (.delete category key) state).2 = entries state
  entries_spared : ∀ {request : Tracking.Request} {state : σ}, request.sparesEntries = true →
    entries (handler request state).2 = entries state

namespace Surroundings

variable {σ ε α : Type} (S : Surroundings σ)

/-- The state after a request. -/
def next (request : Tracking.Request) (state : σ) : σ := (S.handler request state).2

/-- What comes of an attempt. -/
def result (attempt : Attempt Tracking ε α) (state : σ) : Except ε α :=
  (attempt.run.run S.handler state).1

/-- The state after an attempt. -/
def after (attempt : Attempt Tracking ε α) (state : σ) : σ :=
  (attempt.run.run S.handler state).2

/-- The state in which an attempt is when it is stopped after some requests. -/
def stopped (attempt : Attempt Tracking ε α) (count : Nat) (state : σ) : σ :=
  (attempt.run.runFor S.handler count state).2

/-- A query is answered in a state. -/
def Answers (query : Query) (state : σ) : Prop :=
  ∃ value, (S.handler (.query query) state).1 = (.ok value : Except RepositoryError query.Result)

variable {S}

/-- After any write, the store is as before or holds the new entry. -/
theorem entries_write_cases (category key : String) (bytes : List UInt8) (state : σ) :
    S.entries (S.next (.write category key bytes) state) =
        (S.entries state).put category key bytes ∨
      S.entries (S.next (.write category key bytes) state) = S.entries state := by
  cases answer : (S.handler (.write category key bytes) state).1 with
  | ok value => exact .inl (S.entries_write answer)
  | error error => exact .inr (S.entries_write_refused answer)

/-- After any removal, the store is as before or lacks the entry. -/
theorem entries_delete_cases (category key : String) (state : σ) :
    S.entries (S.next (.delete category key) state) = (S.entries state).remove category key ∨
      S.entries (S.next (.delete category key) state) = S.entries state := by
  cases answer : (S.handler (.delete category key) state).1 with
  | ok value => exact .inl (S.entries_delete answer)
  | error error => exact .inr (S.entries_delete_refused answer)

/-! ## Results of sequences -/

private theorem run_bind {β : Type} (attempt : Attempt Tracking ε α)
    (rest : α → Attempt Tracking ε β) (state : σ) :
    (attempt >>= rest).run.run S.handler state =
      match S.result attempt state with
      | .ok value => (rest value).run.run S.handler (S.after attempt state)
      | .error error => (.error error, S.after attempt state) := by
  refine (Program.run_bind S.handler attempt.run _ state).trans ?_
  unfold result after
  cases attempt.run.run S.handler state with
  | mk answer last => cases answer <;> rfl

/-- A sequence ends with what its second part gives, or with the error of its first. -/
theorem result_bind {β : Type} (attempt : Attempt Tracking ε α) (rest : α → Attempt Tracking ε β)
    (state : σ) :
    S.result (attempt >>= rest) state =
      S.result attempt state >>= fun value => S.result (rest value) (S.after attempt state) := by
  rw [result, run_bind]
  cases S.result attempt state <;> rfl

/-- A sequence ends where its second part ends, or where its first part fails. -/
theorem after_bind {β : Type} (attempt : Attempt Tracking ε α) (rest : α → Attempt Tracking ε β)
    (state : σ) :
    S.after (attempt >>= rest) state =
      match S.result attempt state with
      | .ok value => S.after (rest value) (S.after attempt state)
      | .error _ => S.after attempt state := by
  rw [after, run_bind]
  cases S.result attempt state <;> rfl

private theorem run_mapError {δ : Type} (change : ε → δ) (attempt : Attempt Tracking ε α)
    (state : σ) :
    (attempt.mapError change).run.run S.handler state =
      ((S.result attempt state).mapError change, S.after attempt state) := by
  refine (Program.run_bind S.handler attempt.run _ state).trans ?_
  unfold result after
  cases attempt.run.run S.handler state with
  | mk answer last => cases answer <;> rfl

@[simp] theorem result_mapError {δ : Type} (change : ε → δ) (attempt : Attempt Tracking ε α)
    (state : σ) :
    S.result (attempt.mapError change) state = (S.result attempt state).mapError change := by
  rw [result, run_mapError]

@[simp] theorem after_mapError {δ : Type} (change : ε → δ) (attempt : Attempt Tracking ε α)
    (state : σ) :
    S.after (attempt.mapError change) state = S.after attempt state := by
  rw [after, run_mapError]

@[simp] theorem result_query (query : Query) (state : σ) :
    S.result (Tracking.query query) state =
      Except.mapError .repository
        ((S.handler (.query query) state).1 : Except RepositoryError query.Result) :=
  result_mapError _ _ _

@[simp] theorem after_query (query : Query) (state : σ) :
    S.after (Tracking.query query) state = S.next (.query query) state :=
  after_mapError _ _ _

/-- A sequence that gives a value had one of its first part. -/
theorem result_bind_ok {β : Type} {attempt : Attempt Tracking ε α}
    {rest : α → Attempt Tracking ε β} {state : σ} {value : β}
    (told : S.result (attempt >>= rest) state = .ok value) :
    ∃ first, S.result attempt state = .ok first ∧
      S.result (rest first) (S.after attempt state) = .ok value := by
  rw [result_bind] at told
  cases answer : S.result attempt state with
  | ok first =>
    rw [answer] at told
    exact ⟨first, rfl, told⟩
  | error error =>
    rw [answer] at told
    contradiction

/-- A query that gives a value was answered with it. -/
theorem answer_of_result {query : Query} {state : σ} {value : query.Result}
    (told : S.result (Tracking.query query) state = .ok value) :
    S.answer state query = .ok value := by
  rw [result_query] at told
  cases answer : (S.handler (.query query) state).1 with
  | ok other =>
    rw [answer] at told
    cases told
    exact S.answer_of_ok answer
  | error error =>
    rw [answer] at told
    contradiction

/-! ## Triples and runs -/

/-- A triple holds of what comes of an attempt and of the state after it. -/
theorem triple_run {attempt : Attempt Tracking ε α} {always before : σ → Prop}
    {guarantee : α → σ → Prop} (triple : Attempt.Triple S.handler always before attempt guarantee)
    {state : σ} (holds : before state) :
    match S.result attempt state with
    | .ok value => guarantee value (S.after attempt state)
    | .error _ => always (S.after attempt state) := by
  have met := (triple state holds).run
  unfold result after
  revert met
  cases attempt.run.run S.handler state with
  | mk answer last =>
    cases answer with
    | ok value => exact id
    | error error => exact id

/-- What an attempt keeps holds after it, and its value is related to what is known. -/
theorem keeps_run {attempt : Attempt Tracking ε α} {kind : σ → Prop} {related : α → Prop}
    (keeps : Attempt.Keeps S.handler kind attempt related) {state : σ} (holds : kind state) :
    kind (S.after attempt state) ∧
      ∀ value, S.result attempt state = .ok value → related value := by
  have met := triple_run keeps holds
  cases answer : S.result attempt state with
  | ok value =>
    rw [answer] at met
    refine ⟨met.1, ?_⟩
    rintro other same
    cases same
    exact met.2
  | error error =>
    rw [answer] at met
    exact ⟨met, nofun⟩

/-- Wherever an attempt is stopped, what it keeps holds. -/
theorem keeps_stopped {attempt : Attempt Tracking ε α} {kind : σ → Prop} {related : α → Prop}
    (keeps : Attempt.Keeps S.handler kind attempt related) {state : σ} (holds : kind state)
    (count : Nat) : kind (S.stopped attempt count state) := by
  refine (keeps state holds).runFor ?_ count
  rintro (error | value) last met
  · exact met
  · exact met.1

/-- Of any attempt nothing is known at least. -/
theorem keeps_true (attempt : Attempt Tracking ε α) :
    Attempt.Keeps S.handler (fun _ => True) attempt fun _ => True := by
  intro state _
  apply Program.meets_iff_run.2
  cases (attempt.run.run S.handler state).1 with
  | ok value => exact ⟨trivial, trivial⟩
  | error error => exact trivial

/-- The second part of a sequence starts where the first part ends. -/
theorem triple_bindAt {β : Type} {attempt : Attempt Tracking ε α} {rest : α → Attempt Tracking ε β}
    {always : σ → Prop} {between : α → σ → Prop} {guarantee : β → σ → Prop} {state : σ}
    (first : Attempt.Triple S.handler always (· = state) attempt between)
    (second : ∀ value, S.result attempt state = .ok value →
      between value (S.after attempt state) →
        Attempt.Triple S.handler always (· = S.after attempt state) (rest value) guarantee) :
    Attempt.Triple S.handler always (· = state) (attempt >>= rest) guarantee := by
  intro _ same
  subst same
  refine Program.meets_bind.2 ((first _ rfl).sharpen.mono ?_)
  rintro (error | value) last ⟨holds, ran⟩
  · exact holds
  · have ended : S.after attempt _ = last := congrArg Prod.snd ran
    exact second value (congrArg Prod.fst ran) (ended ▸ holds) last ended.symm

/-- One query: what its answer guarantees, and what is left when it is refused. -/
theorem triple_query {query : Query} {always before : σ → Prop}
    {guarantee : query.Result → σ → Prop} (asked : ∀ state, before state → always state)
    (told : ∀ state value, before state →
      (S.handler (.query query) state).1 = (.ok value : Except RepositoryError query.Result) →
        guarantee value (S.next (.query query) state))
    (refused : ∀ state error, before state →
      (S.handler (.query query) state).1 = (.error error : Except RepositoryError query.Result) →
        always (S.next (.query query) state)) :
    Attempt.Triple S.handler always before (Tracking.query query) guarantee := by
  refine .mapError fun state holds => ⟨asked state holds, ?_⟩
  cases answer : (S.handler (.query query) state).1 with
  | ok value => exact told state value holds answer
  | error error => exact refused state error holds answer

/-! ## Quiet requests -/

/-- A kind of states is undisturbed: quiet requests keep it. -/
def Undisturbed (S : Surroundings σ) (kind : σ → Prop) : Prop :=
  ∀ {request : Tracking.Request} {state : σ}, request.isQuiet = true → kind state →
    kind (S.next request state)

/-- A kind of states admits a category: writes to it keep the kind, whatever is written. -/
def Admits (S : Surroundings σ) (kind : σ → Prop) (category : String) : Prop :=
  ∀ {key : String} {bytes : List UInt8} {state : σ}, kind state →
    kind (S.next (.write category key bytes) state)

variable {kind : σ → Prop}

/-- A question gives the answer of a state of the kept kind. -/
theorem keeps_query {query : Query}
    (kept : ∀ {state}, kind state → kind (S.next (.query query) state)) :
    Attempt.Keeps S.handler kind (Tracking.query query) fun value =>
      ∃ state, kind state ∧ S.answer state query = .ok value := by
  refine triple_query (fun _ holds => holds) (fun state value holds told => ?_)
    fun state error holds _ => kept holds
  exact ⟨kept holds, state, holds, S.answer_of_ok told⟩

/-- A question that is no order gives the answer of a state of the kept kind. -/
theorem keeps_question (quiet : S.Undisturbed kind) {query : Query}
    (question : query.isOrder = false) :
    Attempt.Keeps S.handler kind (Tracking.query query) fun value =>
      ∃ state, kind state ∧ S.answer state query = .ok value :=
  keeps_query fun holds => quiet (by simp [Tracking.Request.isQuiet, question]) holds

/-! ## Answers that stay the same -/

/-- The answers to some queries change only when an order of some kind is carried out. -/
def SteadyBut (S : Surroundings σ) (orders concern : Query → Prop) : Prop :=
  ∀ (request : Tracking.Request) (state : σ) (query : Query), concern query →
    (∀ order, orders order → request = .query order → ¬ S.Answers order state) →
      S.answer (S.next request state) query = S.answer state query

/-- The repository answers some queries in one way, and the store's entries have a property. -/
structure Holding (S : Surroundings σ) (concern : Query → Prop) (answers : LocaleWatch.Answers)
    (property : Entries → Prop) (state : σ) : Prop where
  answers : ∀ query, concern query → S.answer state query = answers query
  entries : property (S.entries state)

variable {orders concern : Query → Prop} {answers : LocaleWatch.Answers} {property : Entries → Prop}

/-- A request that carries out no order keeps the answers; the entries' property is to be
shown. -/
theorem Holding.next (steady : S.SteadyBut orders concern) {request : Tracking.Request} {state : σ}
    (holding : S.Holding concern answers property state)
    (idle : ∀ order, orders order → request = .query order → ¬ S.Answers order state)
    (kept : property (S.entries (S.next request state))) :
    S.Holding concern answers property (S.next request state) where
  answers query concerned := by
    rw [steady request state query concerned idle, holding.answers query concerned]
  entries := kept

/-- A request that is no change of the store keeps the property anyway. -/
theorem Holding.spared (steady : S.SteadyBut orders concern) {request : Tracking.Request}
    {state : σ} (holding : S.Holding concern answers property state)
    (spares : request.sparesEntries = true)
    (idle : ∀ order, orders order → request = .query order → ¬ S.Answers order state) :
    S.Holding concern answers property (S.next request state) := by
  apply holding.next steady idle
  have same : S.entries (S.next request state) = S.entries state := S.entries_spared spares
  rw [same]
  exact holding.entries

/-- Answers that only an order changes, together with any property of the entries, are kept
by every request that is neither an order nor a change of the store. -/
theorem holding_undisturbed (steady : S.SteadyBut orders concern)
    (onlyOrders : ∀ query, orders query → query.isOrder = true) :
    S.Undisturbed (S.Holding concern answers property) := by
  intro request state quiet holding
  apply holding.spared steady (Tracking.Request.sparesEntries_of_isQuiet quiet)
  intro order isOrder same
  subst same
  simp [Tracking.Request.isQuiet, onlyOrders order isOrder] at quiet

/-- A write keeps the answers, and the property too if it holds with the new entry. -/
theorem Holding.write (steady : S.SteadyBut orders concern) {state : σ}
    {category key : String} {bytes : List UInt8}
    (holding : S.Holding concern answers property state)
    (kept : property (S.entries state) → property ((S.entries state).put category key bytes)) :
    S.Holding concern answers property (S.next (.write category key bytes) state) := by
  refine holding.next steady nofun ?_
  rcases entries_write_cases category key bytes state with same | same
  · rw [same]
    exact kept holding.entries
  · rw [same]
    exact holding.entries

/-- A removal keeps the answers, and the property too if it holds without the entry. -/
theorem Holding.delete (steady : S.SteadyBut orders concern) {state : σ} {category key : String}
    (holding : S.Holding concern answers property state)
    (kept : property (S.entries state) → property ((S.entries state).remove category key)) :
    S.Holding concern answers property (S.next (.delete category key) state) := by
  refine holding.next steady nofun ?_
  rcases entries_delete_cases category key state with same | same
  · rw [same]
    exact kept holding.entries
  · rw [same]
    exact holding.entries

end Surroundings

end LocaleWatch
