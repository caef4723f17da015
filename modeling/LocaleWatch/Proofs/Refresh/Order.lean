import LocaleWatch.Proofs.Refresh.Events

/-!
# The order of a refresh

What a refresh drops and when it pulls is a matter of order: nothing is dropped before it is known
which files change, the pull comes when all that is stale has been dropped, the main branch is
dropped when it has moved, and the state is written down when all went well. The order holds of
every run, wherever it fails and whatever it is told, because it holds of every transcript.

## Main results

* `Refresh.run_ordered` — the order of the events of a refresh.
-/

namespace LocaleWatch

open Attempt

namespace Refresh

variable {events : List (Event Tracking)} {result : Except HistoryError Outcome}

/-- Both entries of a file were removed. -/
def Forgotten (events : List (Event Tracking)) (file : String) : Prop :=
  .delete History.lastCommitCategory (Path.ofText file).key (.ok ()) ∈ events ∧
    .delete History.commitsAfterCategory (Path.ofText file).key (.ok ()) ∈ events

/-- What comes before an event that is not among the first ones begins with these. -/
private theorem split_behind {first second before after : List (Event Tracking)}
    {event : Event Tracking} (same : first ++ second = before ++ event :: after)
    (apart : event ∉ first) :
    ∃ between, before = first ++ between ∧ second = between ++ event :: after := by
  rcases List.append_eq_append_iff.1 same with
    ⟨between, split, rest⟩ | ⟨_ | ⟨other, more⟩, split, rest⟩
  · exact ⟨between, split, rest⟩
  · exact ⟨[], by simp [split], rest.symm⟩
  · obtain ⟨rfl, -⟩ := List.cons.inj rest
    exact absurd (by simp [split]) apart

private theorem pull_not_gathered {told : Except RepositoryError Unit}
    {result : Except HistoryError Outcome} (ends : Ends gather events result) :
    Event.query .pull told ∉ events :=
  fun mem => asks_gather.ends ends _ mem rfl

private theorem delete_not_gathered {category key : String} {told : Except CacheError Unit}
    (ends : Ends gather events result) : Event.delete category key told ∉ events :=
  fun mem => asks_gather.ends ends _ mem

private theorem removals_forget {files : List String} :
    ∀ event ∈ files.flatMap removals, Forgets event.request := by
  intro event mem
  obtain ⟨file, -, isRemoval⟩ := List.mem_flatMap.1 mem
  rcases List.mem_cons.1 isRemoval with rfl | isRemoval
  · exact .inl rfl
  · rw [List.mem_singleton.1 isRemoval]
    exact .inr rfl

private theorem files_of_removals {files : List String} :
    (files.flatMap removals).flatMap Event.files = [] := by
  rw [List.flatMap_assoc]
  exact List.flatMap_eq_nil_iff.2 fun file _ => rfl

/-- Every file that was listed is forgotten by the removals of the changed ones. -/
private theorem Gathered.forgotten {gathering : List (Event Tracking)} {outcome : Outcome}
    (gathered : Gathered gathering outcome) {file : String}
    (listed : file ∈ gathering.flatMap Event.files) :
    Forgotten (outcome.changed.flatMap removals) file := by
  have isChanged : file ∈ outcome.changed := by
    rw [gathered.changed]
    exact Text.mem_sortedDistinct.2 listed
  exact ⟨List.mem_flatMap.2 ⟨file, isChanged, List.mem_cons_self⟩,
    List.mem_flatMap.2 ⟨file, isChanged, List.mem_cons_of_mem _ List.mem_cons_self⟩⟩

private theorem Settling.files {outcome : Outcome} (settles : Settling outcome events result) :
    events.flatMap Event.files = [] := by
  have dropping : outcome.dropping.flatMap Event.files = [] := by
    unfold Outcome.dropping
    split <;> rfl
  cases settles with
  | refused moved => rfl
  | dropped records =>
    rw [List.flatMap_append, dropping]
    cases records <;> rfl

/-! ## The pull -/

/-- A pull comes when the changed files are known and forgotten. -/
theorem Running.before_pull (running : Running events result)
    {before after : List (Event Tracking)} {told : Except RepositoryError Unit}
    (same : events = before ++ .query .pull told :: after) :
    ∃ gathering outcome, gathering <+: before ∧ Gathered gathering outcome ∧
      ∀ file ∈ events.flatMap Event.files, Forgotten before file := by
  have isIn : Event.query .pull told ∈ events := by simp [same]
  have behind {gathering rest : List (Event Tracking)} {outcome : Outcome}
      (gathers : Ends gather gathering (.ok outcome)) (quiet : rest.flatMap Event.files = [])
      (parts : events = gathering ++ outcome.changed.flatMap removals ++ rest) :
      ∃ gathering outcome, gathering <+: before ∧ Gathered gathering outcome ∧
        ∀ file ∈ events.flatMap Event.files, Forgotten before file := by
    have apart : Event.query .pull told ∉ gathering ++ outcome.changed.flatMap removals := by
      intro mem
      rcases List.mem_append.1 mem with mem | mem
      · exact pull_not_gathered gathers mem
      · exact removals_forget _ mem
    obtain ⟨between, rfl, -⟩ := split_behind (parts.symm.trans same) apart
    have gathered : Gathered gathering outcome := gathered_of_ends gathers
    refine ⟨gathering, outcome, ⟨outcome.changed.flatMap removals ++ between, by simp⟩, gathered,
      fun file mem => ?_⟩
    rw [parts, List.flatMap_append, List.flatMap_append, files_of_removals, quiet,
      List.append_nil, List.append_nil] at mem
    obtain ⟨last, commitsAfter⟩ := gathered.forgotten mem
    exact ⟨by simp [last], by simp [commitsAfter]⟩
  cases running with
  | gathering gathers => exact absurd isIn (pull_not_gathered gathers)
  | forgetting gathers forgets =>
    rcases List.mem_append.1 isIn with isIn | isIn
    · exact absurd isIn (pull_not_gathered gathers)
    · cases (asks_forget _).ends forgets _ isIn
  | pulling gathers => exact behind gathers rfl rfl
  | @settling outcome gathering settling result gathers settles =>
    have quiet : (.query .pull (.ok ()) :: settling).flatMap Event.files = [] := settles.files
    exact behind gathers quiet rfl

/-! ## Removals -/

/-- A removal comes when the changed files are known. -/
theorem Running.before_delete (running : Running events result)
    {before after : List (Event Tracking)} {category key : String} {told : Except CacheError Unit}
    (same : events = before ++ .delete category key told :: after) :
    ∃ gathering outcome, gathering <+: before ∧ Gathered gathering outcome := by
  have isIn : Event.delete category key told ∈ events := by simp [same]
  have behind {gathering rest : List (Event Tracking)} {outcome : Outcome}
      (gathers : Ends gather gathering (.ok outcome)) (parts : events = gathering ++ rest) :
      ∃ gathering outcome, gathering <+: before ∧ Gathered gathering outcome := by
    obtain ⟨between, rfl, -⟩ :=
      split_behind (parts.symm.trans same) (delete_not_gathered gathers)
    exact ⟨gathering, outcome, List.prefix_append _ _, gathered_of_ends gathers⟩
  cases running with
  | gathering gathers => exact absurd isIn (delete_not_gathered gathers)
  | forgetting gathers forgets => exact behind gathers rfl
  | pulling gathers => exact behind gathers (List.append_assoc _ _ _)
  | settling gathers settles => exact behind gathers (List.append_assoc _ _ _)

private theorem Recording.spares {outcome : Outcome} (records : Recording outcome events result) :
    ∀ event ∈ events, ¬ event.request.IsRemoval := by
  cases records <;> simp [Tracking.Request.IsRemoval]

/-- Settling removes the main branch only if it has moved. -/
private theorem Settling.moved {outcome : Outcome} (settles : Settling outcome events result)
    {category key : String} {told : Except CacheError Unit}
    (isIn : Event.delete category key told ∈ events) : outcome.fresh ≠ [] := by
  cases settles with
  | refused moved => exact moved
  | dropped records =>
    rcases List.mem_append.1 isIn with isIn | isIn
    · unfold Outcome.dropping at isIn
      rintro none
      rw [none] at isIn
      contradiction
    · exact absurd trivial (records.spares _ isIn)

/-- The main branch is removed after a pull that brought something. -/
theorem Running.before_drop (running : Running events result)
    {before after : List (Event Tracking)} {key : String} {told : Except CacheError Unit}
    (same : events = before ++ .delete History.mainBranchCategory key told :: after) :
    .query .pull (.ok ()) ∈ before ∧
      ∃ fresh, .query .freshCommits (.ok fresh) ∈ before ∧ fresh ≠ [] := by
  have isIn : Event.delete History.mainBranchCategory key told ∈ events := by simp [same]
  have notForgotten : ¬ Forgets (Event.delete History.mainBranchCategory key told).request := by
    rintro (same | same) <;> contradiction
  have apart {gathering : List (Event Tracking)} {outcome : Outcome}
      (gathers : Ends gather gathering (.ok outcome)) :
      Event.delete History.mainBranchCategory key told ∉
        gathering ++ outcome.changed.flatMap removals := by
    intro mem
    rcases List.mem_append.1 mem with mem | mem
    · exact delete_not_gathered gathers mem
    · exact notForgotten (removals_forget _ mem)
  cases running with
  | gathering gathers => exact absurd isIn (delete_not_gathered gathers)
  | forgetting gathers forgets =>
    rcases List.mem_append.1 isIn with isIn | isIn
    · exact absurd isIn (delete_not_gathered gathers)
    · exact absurd ((asks_forget _).ends forgets _ isIn) notForgotten
  | pulling gathers =>
    rcases List.mem_append.1 isIn with isIn | isIn
    · exact absurd isIn (apart gathers)
    · cases List.mem_singleton.1 isIn
  | @settling outcome gathering settling result gathers settles =>
    have moved : outcome.fresh ≠ [] := by
      rcases List.mem_append.1 isIn with isIn | isIn
      · exact absurd isIn (apart gathers)
      · rcases List.mem_cons.1 isIn with isPull | isIn
        · cases isPull
        · exact settles.moved isIn
    have parts : gathering ++ outcome.changed.flatMap removals ++ [.query .pull (.ok ())] ++
        settling = before ++ .delete History.mainBranchCategory key told :: after := by
      rw [← same]
      simp
    have notBefore : Event.delete History.mainBranchCategory key told ∉
        gathering ++ outcome.changed.flatMap removals ++ [.query .pull (.ok ())] := by
      intro mem
      rcases List.mem_append.1 mem with mem | mem
      · exact apart gathers mem
      · cases List.mem_singleton.1 mem
    obtain ⟨between, rfl, -⟩ := split_behind parts notBefore
    exact ⟨by simp, outcome.fresh, by simp [(gathered_of_ends gathers).fresh], moved⟩

/-! ## The state -/

/-- Whether a request writes the state of a refresh. -/
def WritesState : Tracking.Request → Prop
  | .write category _ _ => category = stateCategory
  | _ => False

private theorem Gathers.spares {request : Tracking.Request} (gathers : Gathers request) :
    ¬ WritesState request := by
  cases request with
  | write category key bytes => exact gathers
  | _ => exact id

private theorem Forgets.spares {request : Tracking.Request} (forgets : Forgets request) :
    ¬ WritesState request := by
  cases request with
  | delete category key => exact id
  | _ => exact fun _ => forgets

private theorem Outcome.dropping_spares {outcome : Outcome} :
    ∀ event ∈ outcome.dropping, ¬ WritesState event.request := by
  unfold Outcome.dropping
  split <;> simp [WritesState]

/-- The state is written last, if it is written, and the refresh gives an outcome exactly if that
is not refused. -/
def Recorded (events : List (Event Tracking)) (result : Except HistoryError Outcome) : Prop :=
  ((∀ event ∈ events, ¬ WritesState event.request) ∧ ∃ error, result = .error error) ∨
    ∃ early bytes told, events = early ++ [.write stateCategory "" bytes told] ∧
      (∀ event ∈ early, ¬ WritesState event.request) ∧
        ((∃ outcome, result = .ok outcome) ↔ told = .ok ())

private theorem Recorded.behind {first : List (Event Tracking)}
    (spares : ∀ event ∈ first, ¬ WritesState event.request) (recorded : Recorded events result) :
    Recorded (first ++ events) result := by
  rcases recorded with ⟨unwritten, failed⟩ | ⟨early, bytes, told, rfl, unwritten, given⟩
  · exact .inl ⟨List.forall_mem_append.2 ⟨spares, unwritten⟩, failed⟩
  · exact .inr ⟨first ++ early, bytes, told, by simp,
      List.forall_mem_append.2 ⟨spares, unwritten⟩, given⟩

private theorem Recorded.last (recorded : Recorded events result)
    {before after : List (Event Tracking)} {key : String} {bytes : List UInt8}
    {told : Except CacheError Unit}
    (same : events = before ++ .write stateCategory key bytes told :: after) : after = [] := by
  rcases recorded with ⟨unwritten, -⟩ | ⟨early, bytes', told', split, unwritten, -⟩
  · exact absurd rfl (unwritten (.write stateCategory key bytes told) (by simp [same]))
  · obtain ⟨between, -, rest⟩ :=
      split_behind (split.symm.trans same) fun mem => unwritten _ mem rfl
    have short := congrArg List.length rest
    rw [List.length_singleton, List.length_append, List.length_cons] at short
    exact List.eq_nil_of_length_eq_zero (by omega)

private theorem Recorded.given_iff (recorded : Recorded events result) :
    (∃ outcome, result = .ok outcome) ↔
      ∃ key bytes, .write stateCategory key bytes (.ok ()) ∈ events := by
  rcases recorded with ⟨unwritten, error, rfl⟩ | ⟨early, bytes, told, rfl, unwritten, given⟩
  · constructor
    · rintro ⟨outcome, ⟨⟩⟩
    · rintro ⟨key, bytes, mem⟩
      exact absurd rfl (unwritten _ mem)
  · rw [given]
    constructor
    · rintro rfl
      exact ⟨"", bytes, by simp⟩
    · rintro ⟨key, bytes', mem⟩
      rcases List.mem_append.1 mem with mem | mem
      · exact absurd rfl (unwritten _ mem)
      · cases List.mem_singleton.1 mem
        rfl

private theorem Recording.recorded {outcome : Outcome} (records : Recording outcome events result) :
    Recorded events result := by
  cases records with
  | unknown => exact .inl ⟨by simp [WritesState], _, rfl⟩
  | cancelled => exact .inl ⟨by simp [WritesState], _, rfl⟩
  | @refused head error =>
    exact .inr ⟨[.query .mainHead (.ok head), .isCancelled false], _, .error error, rfl,
      by simp [WritesState], nofun, nofun⟩
  | @written head =>
    exact .inr ⟨[.query .mainHead (.ok head), .isCancelled false], _, .ok (), rfl,
      by simp [WritesState], fun _ => rfl, fun _ => ⟨outcome, rfl⟩⟩

private theorem Settling.recorded {outcome : Outcome} (settles : Settling outcome events result) :
    Recorded events result := by
  cases settles with
  | refused moved => exact .inl ⟨by simp [WritesState], _, rfl⟩
  | dropped records => exact records.recorded.behind Outcome.dropping_spares

theorem Running.recorded (running : Running events result) : Recorded events result := by
  have gathered {gathering : List (Event Tracking)} {result : Except HistoryError Outcome}
      (gathers : Ends gather gathering result) :
      ∀ event ∈ gathering, ¬ WritesState event.request :=
    fun event mem => (asks_gather.ends gathers event mem).spares
  have forgotten {files : List String} :
      ∀ event ∈ files.flatMap removals, ¬ WritesState event.request :=
    fun event mem => (removals_forget event mem).spares
  cases running with
  | gathering gathers => exact .inl ⟨gathered gathers, _, rfl⟩
  | forgetting gathers forgets =>
    refine .inl ⟨List.forall_mem_append.2 ⟨gathered gathers, fun event mem => ?_⟩, _, rfl⟩
    exact ((asks_forget _).ends forgets event mem).spares
  | pulling gathers =>
    refine Recorded.behind (List.forall_mem_append.2 ⟨gathered gathers, forgotten⟩) ?_
    exact .inl ⟨by simp [WritesState], _, rfl⟩
  | @settling outcome gathering settling result gathers settles =>
    have pulled : Recorded ([.query .pull (.ok ())] ++ settling) result :=
      settles.recorded.behind (by simp [WritesState])
    exact pulled.behind (List.forall_mem_append.2 ⟨gathered gathers, forgotten⟩)

/-! ## The whole order -/

private theorem run_behind_gather :
    run = gather >>= fun outcome => outcome.changed.forM History.forgetFile >>= fun _ =>
      Tracking.query .pull >>= fun _ => settle outcome := by
  simp only [run_eq, advance, prepare, bind_assoc, pure_bind]

/-- What precedes what in a refresh, whatever it is told and wherever it ends: it pulls when it
knows the changed files and has forgotten each of them; nothing is removed before they are known,
and if they do not get known, nothing is removed or pulled at all; the main branch is removed only
after a pull that brought something; and the state is written last, without refusal exactly if the
refresh gives an outcome. -/
theorem run_ordered {σ : Type} (handler : Program.Handler Tracking σ) (state : σ) :
    let events := run.run.trace handler state
    let result := (run.run.run handler state).1
    (∀ before told after, events = before ++ .query .pull told :: after →
      ∃ gathering outcome, gathering <+: before ∧ Gathered gathering outcome ∧
        ∀ file ∈ events.flatMap Event.files, Forgotten before file) ∧
    (∀ before category key told after, events = before ++ .delete category key told :: after →
      ∃ gathering outcome, gathering <+: before ∧ Gathered gathering outcome) ∧
    (∀ error, (gather.run.run handler state).1 = .error error → result = .error error ∧
      ∀ event ∈ events, event.request ≠ .query .pull ∧
        ∀ category key, event.request ≠ .delete category key) ∧
    (∀ before key told after,
      events = before ++ .delete History.mainBranchCategory key told :: after →
        .query .pull (.ok ()) ∈ before ∧
          ∃ fresh, .query .freshCommits (.ok fresh) ∈ before ∧ fresh ≠ []) ∧
    (∀ before key bytes told after,
      events = before ++ .write stateCategory key bytes told :: after → after = []) ∧
    ((∃ outcome, result = .ok outcome) ↔
      ∃ key bytes, .write stateCategory key bytes (.ok ()) ∈ events) := by
  intro events result
  have running : Running events result :=
    ends_run (Program.transcript_trace handler run.run state)
  refine ⟨fun before told after => running.before_pull,
    fun before category key told after => running.before_delete, ?_,
    fun before key told after => running.before_drop, ?_, ?_⟩
  · intro error failed
    obtain ⟨failed', same⟩ := run_bind_error failed
    rw [← run_behind_gather] at failed' same
    refine ⟨failed', fun event mem => ?_⟩
    have gathers : Gathers event.request :=
      asks_gather.ends (Program.transcript_trace handler gather.run state) event (same ▸ mem)
    refine ⟨fun isPull => ?_, fun category key isRemoval => ?_⟩
    · rw [isPull] at gathers
      exact gathers rfl
    · rw [isRemoval] at gathers
      exact gathers
  · intro before key bytes told after same
    exact running.recorded.last same
  · exact running.recorded.given_iff

end Refresh

end LocaleWatch
