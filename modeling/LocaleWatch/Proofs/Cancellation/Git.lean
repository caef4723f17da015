import LocaleWatch.Git.Repository
import LocaleWatch.Proofs.Program.Transcript
import LocaleWatch.Proofs.Surroundings

/-!
# Runs of the version-control program and the token

A query runs the version-control program only right after it has looked at the token, so once the
token is set no run is started. One that was started before that goes on to its end, and the token
is looked at again when it is over: what a run printed for a question is read only if the token was
not set meanwhile. What a failing run printed is not read at all. The two orders do not look again,
since what they have done is done.

## Main results

* `GitRepository.guarded_answer` — where a query looks at the token.
* `CancellableHost.no_run` — no run is started once the token is set.
* `CancellableHost.discarded` — what a run printed meanwhile is thrown away.
-/

namespace LocaleWatch

/-- The version-control program was run. -/
abbrev Event.ran (command : GitCommand) (told : Except Fault GitOutput) : Event Host :=
  ⟨Host.Request.git command, told⟩

/-- Whether a request does something else than to run the version-control program. -/
def Host.Request.RunsNothing (request : Host.Request) : Prop := ∀ command, request ≠ .git command

theorem Host.Request.RunsNothing.isCancelled : Host.Request.RunsNothing .isCancelled := nofun

/-- A program runs the version-control program only right after it has looked at the token, and
ends if it is set. If it `discards`, it looks at the token again after a run that went well, and
does not read what any other run printed. -/
inductive Guarded {α : Type} (operation : String) (discards : Prop) :
    Program Host (Except RepositoryError α) → Prop where
  | done (result : Except RepositoryError α) : Guarded operation discards (.done result)
  | other {request : Host.Request}
    {next : Host.Answer request → Program Host (Except RepositoryError α)}
    (runsNothing : request.RunsNothing) (rest : ∀ told, Guarded operation discards (next told)) :
    Guarded operation discards (.ask (I := Host) request next)
  | run {command : GitCommand} {next : Bool → Program Host (Except RepositoryError α)}
    {later : Except Fault GitOutput → Program Host (Except RepositoryError α)}
    (stops : next true = .done (.error (.cancelled operation)))
    (goesOn : next false = .ask (I := Host) (.git command) later)
    (rest : ∀ told, Guarded operation discards (later told))
    (looks : discards → ∀ printed, printed.status = 0 →
      ∃ last : Bool → Program Host (Except RepositoryError α),
        later (.ok printed) = .ask (I := Host) .isCancelled last ∧
          last true = .done (.error (.cancelled operation)))
    (unread : discards → ∀ printed output, printed.status ≠ 0 →
      later (.ok { printed with output }) = later (.ok printed)) :
    Guarded operation discards (.ask (I := Host) .isCancelled next)

namespace Guarded

variable {α β : Type} {operation : String} {discards : Prop}

theorem of_asks {program : Program Host (Except RepositoryError α)}
    (asks : program.Asks Host.Request.RunsNothing) : Guarded operation discards program := by
  induction program with
  | done result => exact .done result
  | ask request next ih => exact .other asks.1 fun told => ih told (asks.2 told)

/-- A sequence whose second part passes on that the run was cancelled. -/
theorem sequence {program : Program Host (Except RepositoryError α)}
    {next : Except RepositoryError α → Program Host (Except RepositoryError β)}
    (first : Guarded operation discards program)
    (passes : next (.error (.cancelled operation)) = .done (.error (.cancelled operation)))
    (second : ∀ told, Guarded operation discards (next told)) :
    Guarded operation discards (program.bind next) := by
  induction first with
  | done result => exact second result
  | other runsNothing _ ih => exact .other runsNothing ih
  | @run command looking later stops goesOn rest looks unread ih =>
    refine .run (by rw [stops]; exact passes) (by rw [goesOn]; rfl) ih ?_ ?_
    · intro may printed success
      obtain ⟨last, same, stop⟩ := looks may printed success
      exact ⟨fun told => (last told).bind next, by rw [same]; rfl,
        (congrArg (·.bind next) stop).trans passes⟩
    · intro may printed output failure
      rw [unread may printed output failure]

theorem bind {attempt : GitRepository.Answering α} {next : α → GitRepository.Answering β}
    (first : Guarded operation discards attempt.run)
    (second : ∀ value, Guarded operation discards (next value).run) :
    Guarded operation discards (attempt >>= next).run := by
  refine first.sequence rfl ?_
  rintro (error | value)
  · exact .done _
  · exact second value

end Guarded

/-! ## Queries -/

namespace GitRepository

variable (repository : GitRepository) {operation : String} {discards : Prop}

/-- A run for an order: it is started after a look at the token. -/
theorem guarded_run (order : ¬ discards) (arguments : List String) :
    Guarded operation discards (repository.run operation arguments).run := by
  refine .run rfl rfl ?_ (fun may => absurd may order) (fun may => absurd may order)
  rintro (fault | ⟨status, output, complaint⟩)
  · exact .done _
  · cases status <;> exact .done _

/-- A run for a question: the token is looked at before it and after it. -/
theorem guarded_ask (arguments : List String) :
    Guarded operation discards (repository.ask operation arguments).run := by
  refine .run rfl rfl ?_ ?_ ?_
  · rintro (fault | ⟨status, output, complaint⟩)
    · exact .done _
    · cases status with
      | zero => exact .other nofun fun told => by cases told <;> exact .done _
      | succ status => exact .done _
  · rintro - ⟨status, output, complaint⟩ rfl
    exact ⟨_, rfl, rfl⟩
  · rintro - ⟨status, output, complaint⟩ other failure
    cases status with
    | zero => contradiction
    | succ status => rfl

theorem guarded_log (arguments : List String) :
    Guarded operation discards (repository.log operation arguments).run :=
  (repository.guarded_ask _).bind fun _ => .done _

theorem guarded_treeEntries (flags : List String) (path : String) :
    Guarded operation discards (repository.treeEntries operation flags path).run :=
  (repository.guarded_ask _).bind fun _ => .done _

section

variable {allowed : Host.Request → Prop} (isCancelled : allowed .isCancelled)
  (kind : ∀ path, allowed (.kind path)) (walk : ∀ directory, allowed (.walk directory))

include isCancelled in
theorem asks_goOn : Attempt.Asks allowed (goOn operation) :=
  ⟨isCancelled, fun cancelled => by cases cancelled <;> exact trivial⟩

include kind in
theorem asks_isThere (path : Path) : Attempt.Asks allowed (Host.isThere path) := by
  unfold Attempt.Asks Host.isThere
  rw [Attempt.run_result_bind]
  refine ⟨kind path, ?_⟩
  rintro (fault | kind)
  · cases fault <;> exact trivial
  · exact trivial

include isCancelled kind walk in
/-- Who looks for files in the working copy looks at the token, walks and looks around. -/
theorem asks_workingFiles (directory : Path) :
    Attempt.Asks allowed (repository.workingFiles operation directory) := by
  have walked (top : Path) : Attempt.Asks allowed (Host.walk top : Answering Listing) :=
    ⟨walk top, fun _ => trivial⟩
  refine (asks_goOn isCancelled).bind fun _ => (walked _).bind fun listing => ?_
  split
  · exact .pure _
  · unfold Attempt.Asks
    rw [Attempt.run_result_bind]
    refine Program.Asks.bind (asks_isThere kind _) fun told => ?_
    split <;> exact trivial
  · exact .throw _

end

theorem guarded_fileExists (path : Path) :
    Guarded operation discards (repository.fileExists operation path).run := by
  unfold fileExists
  split
  · exact .of_asks ((asks_goOn nofun).bind fun _ => (asks_isThere (fun _ => nofun) _).mapError)
  · exact Guarded.bind (.done _) fun _ => (repository.guarded_treeEntries _ _).bind fun _ => .done _

theorem guarded_workingFiles (directory : Path) :
    Guarded operation discards (repository.workingFiles operation directory).run :=
  .of_asks (repository.asks_workingFiles nofun (fun _ => nofun) (fun _ => nofun) directory)

theorem guarded_branchFiles (directory : Path) :
    Guarded operation discards (repository.branchFiles operation directory).run :=
  Guarded.bind (.done _) fun _ => (repository.guarded_treeEntries _ _).bind fun _ => .done _

theorem guarded_head : Guarded operation discards (repository.head operation).run := by
  unfold head
  rw [Attempt.run_result_bind]
  refine (repository.guarded_ask _).sequence rfl fun told => ?_
  split <;> exact .done _

/-- Every query looks at the token before each run, and a question after it, too. -/
theorem guarded_answer (query : Query) :
    Guarded query.operation (query.isOrder = false) (repository.answer query).run := by
  cases query with
  | fileExists path => exact repository.guarded_fileExists path
  | files directory =>
    unfold answer
    split
    · exact repository.guarded_workingFiles directory
    · exact repository.guarded_branchFiles directory
  | lastCommit path =>
    exact Guarded.bind (.done _) fun _ => (repository.guarded_log _).bind fun _ => .done _
  | commitsAfter path start => exact Guarded.bind (.done _) fun _ => repository.guarded_log _
  | mainBranch => exact repository.guarded_log _
  | ancestors commit => exact repository.guarded_log _
  | mergePoints commit => exact repository.guarded_log _
  | filesIn commit => exact (repository.guarded_ask _).bind fun _ => .done _
  | parents commit => exact (repository.guarded_ask _).bind fun _ => .done _
  | filesBetween first last => exact (repository.guarded_ask _).bind fun _ => .done _
  | fetch => exact (repository.guarded_run nofun _).bind fun _ => .done _
  | pull => exact (repository.guarded_run nofun _).bind fun _ => .done _
  | freshCommits => exact repository.guarded_log _
  | mainHead => exact repository.guarded_head

end GitRepository

/-! ## Systems with a token -/

/-- A system with a token. It stays set, and nothing sets it while it is looked at. -/
structure CancellableHost (σ : Type) where
  handler : Program.Handler Host σ
  isSet : σ → Bool
  looked : ∀ state, (handler .isCancelled state).1 = isSet state
  stays : ∀ request state, isSet state = true → isSet (handler request state).2 = true
  spared : ∀ state, isSet state = false → isSet (handler .isCancelled state).2 = false

/-- A run for a question is discarded: if it went well, the question ends as a cancelled one, and if
it failed, it may as well have printed something else. -/
structure Discarded {α : Type} (operation : String)
    (program : Program Host (Except RepositoryError α))
    (events : List (Event Host)) (count : Nat) (command : GitCommand) (printed : GitOutput)
    (result : Except RepositoryError α) : Prop where
  cancelled : printed.status = 0 → result = .error (.cancelled operation)
  unread : printed.status ≠ 0 → ∀ output,
    program.Transcript (events.set count (.ran command (.ok { printed with output }))) result

/-- What is discarded later is discarded. -/
theorem Discarded.ask {α : Type} {operation : String} {request : Host.Request}
    {next : Host.Answer request → Program Host (Except RepositoryError α)}
    {answer : Host.Answer request} {events : List (Event Host)} {count : Nat}
    {command : GitCommand} {printed : GitOutput} {result : Except RepositoryError α}
    (discarded : Discarded operation (next answer) events count command printed result) :
    Discarded operation (.ask (I := Host) request next) (⟨request, answer⟩ :: events) (count + 1)
      command printed result where
  cancelled := discarded.cancelled
  unread failure output := .ask (discarded.unread failure output)

private theorem runFor_zero {σ α : Type} {handler : Program.Handler Host σ}
    (program : Program Host α) (state : σ) : (program.runFor handler 0 state).2 = state := by
  cases program <;> rfl

namespace CancellableHost

variable {σ α : Type} (H : CancellableHost σ) {operation : String} {discards : Prop}
  {program : Program Host (Except RepositoryError α)}

/-- With the token set, no run is started. -/
theorem no_run_set (guarded : Guarded operation discards program) {state : σ}
    (set : H.isSet state = true) :
    ∀ event ∈ program.trace H.handler state, event.request.RunsNothing := by
  induction guarded generalizing state with
  | done result => exact nofun
  | other runsNothing rest ih =>
    intro event mem
    rcases List.mem_cons.1 mem with rfl | mem
    · exact runsNothing
    · exact ih _ (H.stays _ state set) event mem
  | @run command next later stops goesOn rest looks unread ih =>
    have last (told : Bool) (after : σ) (same : told = true) :
        (next told).trace H.handler after = [] := by
      rw [same, stops, Program.trace]
    intro event mem
    rcases List.mem_cons.1 mem with rfl | mem
    · exact .isCancelled
    · rw [last _ _ ((H.looked state).trans set)] at mem
      contradiction

/-- From the moment on in which the token is set, no run is started. -/
theorem no_run (guarded : Guarded operation discards program) {state : σ} (count : Nat)
    (set : H.isSet (program.runFor H.handler count state).2 = true) :
    ∀ event ∈ (program.trace H.handler state).drop count, event.request.RunsNothing := by
  induction guarded generalizing state count with
  | done result =>
    rw [Program.trace, List.drop_nil]
    exact fun _ mem => absurd mem List.not_mem_nil
  | other runsNothing rest ih =>
    cases count with
    | zero => exact H.no_run_set (.other runsNothing rest) set
    | succ count => exact ih _ count set
  | @run command next later stops goesOn rest looks unread ih =>
    cases count with
    | zero => exact H.no_run_set (.run stops goesOn rest looks unread) set
    | succ count =>
      -- A run follows a look right away, so the token was not set in between.
      have behind (told : Bool) (after : σ) (still : told = false → H.isSet after = false)
          (set : H.isSet ((next told).runFor H.handler count after).2 = true) :
          ∀ event ∈ ((next told).trace H.handler after).drop count,
            event.request.RunsNothing := by
        cases told with
        | true =>
          rw [stops, Program.trace, List.drop_nil]
          exact fun _ mem => absurd mem List.not_mem_nil
        | false =>
          rw [goesOn] at set ⊢
          cases count with
          | zero => exact absurd ((still rfl).symm.trans set) Bool.false_ne_true
          | succ count => exact ih _ count set
      exact behind _ _ (fun told => H.spared state ((H.looked state).symm.trans told)) set

/-- With the token set, a program that begins with a look ends with it. -/
private theorem run_look {last : Bool → Program Host (Except RepositoryError α)} {state : σ}
    (stop : last true = .done (.error (.cancelled operation))) (set : H.isSet state = true) :
    ((Program.ask (I := Host) .isCancelled last).run H.handler state).1 =
      .error (.cancelled operation) := by
  have ended (told : Bool) (after : σ) (same : told = true) :
      ((last told).run H.handler after).1 = .error (.cancelled operation) := by
    rw [same, stop]
    rfl
  exact ended _ _ ((H.looked state).trans set)

/-- What a run printed is thrown away if the token is set when it is over. -/
theorem discarded (guarded : Guarded operation discards program) (may : discards) {state : σ}
    {count : Nat} {command : GitCommand} {printed : GitOutput}
    (ran : (program.trace H.handler state)[count]? = some (.ran command (.ok printed)))
    (set : H.isSet (program.runFor H.handler (count + 1) state).2 = true) :
    Discarded operation program (program.trace H.handler state) count command printed
      (program.run H.handler state).1 := by
  induction guarded generalizing state count with
  | done result => contradiction
  | other runsNothing rest ih =>
    cases count with
    | zero => exact absurd (congrArg Event.request (Option.some.inj ran)) (runsNothing command)
    | succ count => exact (ih _ ran set).ask
  | @run started next later stops goesOn rest looks unread ih =>
    have first (told : Except Fault GitOutput) (after : σ)
        (ran : some (Event.ran started told) = some (.ran command (.ok printed)))
        (set : H.isSet after = true) :
        Discarded operation (.ask (I := Host) (.git started) later)
          (.ran started told :: (later told).trace H.handler after) 0 command printed
          ((later told).run H.handler after).1 := by
      cases ran
      constructor
      · intro success
        obtain ⟨last, same, stop⟩ := looks may printed success
        rw [same]
        exact H.run_look stop set
      · intro failure output
        refine .ask ?_
        rw [unread may printed output failure]
        exact Program.transcript_trace H.handler _ after
    cases count with
    | zero => exact nomatch congrArg Event.request (Option.some.inj ran)
    | succ count =>
      have behind (told : Bool) (after : σ)
          (ran : ((next told).trace H.handler after)[count]? = some (.ran command (.ok printed)))
          (set : H.isSet ((next told).runFor H.handler (count + 1) after).2 = true) :
          Discarded operation (next told) ((next told).trace H.handler after) count command printed
            ((next told).run H.handler after).1 := by
        cases told with
        | true =>
          rw [stops] at ran
          contradiction
        | false =>
          rw [goesOn] at ran set ⊢
          cases count with
          | zero => exact first _ _ ran ((congrArg H.isSet (runFor_zero _ _)).symm.trans set)
          | succ count => exact (ih _ ran set).ask
      exact (behind _ _ ran set).ask

end CancellableHost

end LocaleWatch
