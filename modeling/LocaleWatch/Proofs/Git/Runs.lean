import LocaleWatch.Proofs.Git.Arguments

/-!
# One run for one query

A query that runs the version-control program does the same as every other: it looks at the token,
runs its command line, looks at the token again if the run went well, and reads what was printed.
Queries differ in their command lines and in how they read, and the two orders do not look again.

So a query is described by its command line and its reading. What a query makes of a run, whatever
the run left, is then a matter of the reading alone, which asks for nothing.

## Main results

* `GitRepository.run_answer` — every query that runs the program is one run with its reading.
* `GitRepository.asks_nothing` — the other queries run nothing.
* `GitRepository.result_of_ran` — what a query makes of what its run left.
* `GitRepository.result_of_printed` — what it gives where the program prints something.
-/

namespace LocaleWatch

open Text

/-! ## One run -/

section

variable {α β : Type} {operation : String} {command : GitCommand} {looks : Bool}

/-- Go on unless the token is set. -/
def afterLook (operation : String) (rest : Program Host (Except RepositoryError α)) :
    Program Host (Except RepositoryError α) :=
  .ask (I := Host) .isCancelled fun told =>
    bif told then .done (.error (.cancelled operation)) else rest

/-- Read what a run left. With `looks`, a run that went well is read only if the token was not set
meanwhile. -/
def afterRun (operation : String) (looks : Bool) (read : GitOutput → Except RepositoryError α) :
    Except Fault GitOutput → Program Host (Except RepositoryError α)
  | .error fault => .done (.error (.system operation fault))
  | .ok left =>
    if looks ∧ left.status = 0 then afterLook operation (.done (read left)) else .done (read left)

/-- One run of the version-control program that is read. -/
def oneRun (operation : String) (command : GitCommand) (looks : Bool)
    (read : GitOutput → Except RepositoryError α) : Program Host (Except RepositoryError α) :=
  afterLook operation (.ask (I := Host) (.git command) (afterRun operation looks read))

variable {read : GitOutput → Except RepositoryError α}
  {next : Except RepositoryError α → Except RepositoryError β}

theorem afterLook_bind {rest : Program Host (Except RepositoryError α)}
    (passes : next (.error (.cancelled operation)) = .error (.cancelled operation)) :
    (afterLook operation rest).bind (fun told => .done (next told)) =
      afterLook operation (rest.bind fun told => .done (next told)) := by
  refine congrArg (Program.ask (I := Host) .isCancelled) (funext fun told => ?_)
  cases told
  · rfl
  · exact congrArg Program.done passes

/-- Who goes on with a run that is read, and passes on what kept it from being read, reads it in
another way. -/
theorem oneRun_bind
    (passes : next (.error (.cancelled operation)) = .error (.cancelled operation))
    (refused : ∀ fault,
      next (.error (.system operation fault)) = .error (.system operation fault)) :
    (oneRun operation command looks read).bind (fun told => .done (next told)) =
      oneRun operation command looks fun left => next (read left) := by
  refine (afterLook_bind passes).trans (congrArg (afterLook operation) ?_)
  refine congrArg (Program.ask (I := Host) (.git command)) (funext fun done => ?_)
  cases done with
  | error fault => exact congrArg Program.done (refused fault)
  | ok left =>
    simp only [afterRun]
    by_cases again : looks ∧ left.status = 0
    · rw [if_pos again, if_pos again]
      exact afterLook_bind passes
    · rw [if_neg again, if_neg again]
      rfl

/-- Whoever goes on after a look was told that the token is not set. -/
theorem transcript_afterLook {rest : Program Host (Except RepositoryError α)}
    {events : List (Event Host)} {result : Except RepositoryError α} :
    Program.Transcript (afterLook operation rest) events result ↔
      events = [⟨.isCancelled, true⟩] ∧ result = .error (.cancelled operation) ∨
        ∃ later, events = ⟨.isCancelled, false⟩ :: later ∧
          Program.Transcript rest later result := by
  refine Program.transcript_ask.trans ⟨?_, ?_⟩
  · rintro ⟨told, later, rfl, through⟩
    cases told with
    | true =>
      cases through
      exact .inl ⟨rfl, rfl⟩
    | false => exact .inr ⟨later, rfl, through⟩
  · rintro (⟨rfl, rfl⟩ | ⟨later, rfl, through⟩)
    · exact ⟨true, [], rfl, .done _⟩
    · exact ⟨false, later, rfl, through⟩

/-- What a run left is no look at the token. -/
theorem ran_not_mem_look {ran : GitCommand} {told : Except Fault GitOutput} {answer : Bool} :
    (.ran ran told : Event Host) ∉ [(⟨.isCancelled, answer⟩ : Event Host)] := by
  intro mem
  exact nomatch congrArg Event.request (List.mem_singleton.1 mem)

/-- Whoever is told what one run left reads it, or is told at a second look that the token is
set. -/
theorem transcript_oneRun {events : List (Event Host)} {result : Except RepositoryError α}
    {ran : GitCommand} {left : GitOutput}
    (through : Program.Transcript (oneRun operation command looks read) events result)
    (mem : .ran ran (.ok left) ∈ events) :
    ran = command ∧ (result = read left ∨ left.status = 0 ∧
      ⟨.isCancelled, true⟩ ∈ events ∧ result = .error (.cancelled operation)) := by
  obtain ⟨rfl, -⟩ | ⟨later, rfl, started⟩ := transcript_afterLook.1 through
  · exact absurd mem ran_not_mem_look
  obtain ⟨told, last, rfl, ended⟩ := Program.transcript_ask.1 started
  have only (looked : .ran ran (.ok left) ∉ last) : ran = command ∧ told = .ok left := by
    rcases List.mem_cons.1 mem with same | mem
    · exact nomatch congrArg Event.request same
    · rcases List.mem_cons.1 mem with same | mem
      · cases same
        exact ⟨rfl, rfl⟩
      · exact absurd mem looked
  cases told with
  | error fault =>
    cases ended
    exact nomatch (only List.not_mem_nil).2
  | ok printed =>
    simp only [afterRun] at ended
    by_cases again : looks ∧ printed.status = 0
    · rw [if_pos again] at ended
      obtain ⟨rfl, rfl⟩ | ⟨rest, rfl, done⟩ := transcript_afterLook.1 ended
      · obtain ⟨rfl, same⟩ := only ran_not_mem_look
        cases same
        exact ⟨rfl, .inr ⟨again.2, by simp, rfl⟩⟩
      · cases done
        obtain ⟨rfl, same⟩ := only ran_not_mem_look
        cases same
        exact ⟨rfl, .inl rfl⟩
    · rw [if_neg again] at ended
      cases ended
      obtain ⟨rfl, same⟩ := only List.not_mem_nil
      cases same
      exact ⟨rfl, .inl rfl⟩

/-- Who looks at a token that is not set goes on. -/
theorem run_afterLook {σ : Type} {handler : Program.Handler Host σ}
    (goesOn : ∀ state, (handler .isCancelled state).1 = false)
    (rest : Program Host (Except RepositoryError α)) (state : σ) :
    ((afterLook operation rest).run handler state).1 =
      (rest.run handler (handler .isCancelled state).2).1 := by
  have unset (told : Bool) (same : told = false) (later : σ) :
      ((bif told then .done (.error (.cancelled operation)) else rest :
        Program Host (Except RepositoryError α)).run handler later).1 =
        (rest.run handler later).1 := by
    rw [same, cond_false]
  exact unset _ (goesOn state) _

/-- One run where the token is not set and the program leaves something. -/
theorem run_oneRun {σ : Type} {handler : Program.Handler Host σ} {left : GitOutput}
    (goesOn : ∀ state, (handler .isCancelled state).1 = false)
    (leaves : ∀ state, (handler (.git command) state).1 = .ok left) (state : σ) :
    ((oneRun operation command looks read).run handler state).1 = read left := by
  have reads (told : Except Fault GitOutput) (same : told = .ok left) (later : σ) :
      ((afterRun operation looks read told).run handler later).1 = read left := by
    rw [same]
    simp only [afterRun]
    by_cases again : looks ∧ left.status = 0
    · rw [if_pos again, run_afterLook goesOn, Program.run_done]
    · rw [if_neg again, Program.run_done]
  exact (run_afterLook goesOn _ state).trans (reads _ (leaves _) _)

end

namespace GitRepository

variable (repository : GitRepository)

/-! ## How queries read -/

/-- What a run printed; an error if it failed. -/
def concluded (operation : String) (arguments : List String) (left : GitOutput) :
    Except RepositoryError String :=
  if left.status ≠ 0 then
    .error (.commandFailed operation (" ".intercalate arguments) (trim (lossyText left.complaint)))
  else .ok (lossyText left.output)

/-- Of a run that went well, what it printed is read. -/
theorem concluded_bind {α : Type} {operation : String} {arguments : List String}
    {left : GitOutput} {read : String → Except RepositoryError α} (wentWell : left.status = 0) :
    (concluded operation arguments left >>= read) = read (lossyText left.output) := by
  simp [concluded, wentWell, bind, Except.bind]

/-- The head that a run printed. That a failing run has no complaint means that there is no commit
yet. -/
def headOf (operation : String) :
    Except RepositoryError String → Except RepositoryError (Option CommitId)
  | .ok output => readHead operation output
  | .error (.commandFailed _ _ "") => .ok none
  | .error error => .error error

/-- What a query makes of what its run left. -/
def reading (query : Query) (left : GitOutput) : Except RepositoryError query.Result :=
  let operation := query.operation
  let printed := concluded operation (repository.commandLine query) left
  match query with
  | .fileExists path => return (entries (← printed)).contains path.key
  | .files directory =>
    return ascending ((entries (← printed)).filterMap (relativeTo? directory.key))
  | .lastCommit _ => return (← printed >>= readCommits operation).getLast?
  | .commitsAfter _ _ | .mainBranch | .ancestors _ | .mergePoints _ | .freshCommits =>
    printed >>= readCommits operation
  | .filesIn _ | .filesBetween _ _ => return filledLines (← printed)
  | .parents _ => printed >>= readParents operation
  | .fetch | .pull => do let _ ← printed
  | .mainHead => headOf operation printed

/-- Whether a query runs the program: files of the branch that is checked out are looked for in the
working copy, and a path that is no text cannot be asked about. -/
def Runs : Query → Prop
  | .fileExists path | .files path => repository.isCheckedOut = false ∧ path.text? ≠ none
  | .lastCommit path | .commitsAfter path _ => path.text? ≠ none
  | _ => True

/-! ## Queries are single runs -/

section

variable {repository} {operation : String} {arguments : List String}

theorem run_run : (repository.run operation arguments).run =
    oneRun operation (.within repository.workingCopy arguments) false
      (concluded operation arguments) := by
  refine congrArg (Program.ask (I := Host) .isCancelled) (funext fun told => ?_)
  cases told with
  | true => rfl
  | false =>
    refine congrArg (Program.ask (I := Host) _) (funext fun done => ?_)
    rcases done with fault | ⟨status, output, complaint⟩
    · rfl
    · cases status <;> rfl

theorem run_ask : (repository.ask operation arguments).run =
    oneRun operation (.within repository.workingCopy arguments) true
      (concluded operation arguments) := by
  refine congrArg (Program.ask (I := Host) .isCancelled) (funext fun told => ?_)
  cases told with
  | true => rfl
  | false =>
    refine congrArg (Program.ask (I := Host) _) (funext fun done => ?_)
    rcases done with fault | ⟨status, output, complaint⟩
    · rfl
    · cases status with
      | zero =>
        refine congrArg (Program.ask (I := Host) .isCancelled) (funext fun told => ?_)
        cases told <;> rfl
      | succ status => rfl

/-- Who reads what another attempt read from a run reads the run. -/
theorem run_read {α β : Type} {attempt : Answering α} {command : GitCommand} {looks : Bool}
    {read : GitOutput → Except RepositoryError α} (next : α → Except RepositoryError β)
    (reads : attempt.run = oneRun operation command looks read) :
    (attempt >>= fun value => liftM (next value)).run =
      oneRun operation command looks fun left => read left >>= next := by
  have same : (attempt >>= fun value => (liftM (next value) : Answering β)).run =
      attempt.run.bind fun told => .done (told >>= next) := by
    refine congrArg (Program.bind attempt.run) (funext fun told => ?_)
    cases told <;> rfl
  rw [same, reads]
  exact oneRun_bind rfl fun fault => rfl

theorem run_log {line : List String} (same : "log" :: Commit.listingFormat :: arguments = line) :
    (repository.log operation arguments).run =
      oneRun operation (.within repository.workingCopy line) true
        fun left => concluded operation line left >>= readCommits operation := by
  subst same
  exact run_read _ run_ask

/-- To read something else from a run that is read is to read it in another way. -/
theorem run_map {α β : Type} {attempt : Answering α} {command : GitCommand} {looks : Bool}
    {read : GitOutput → Except RepositoryError α} {change : α → β}
    (reads : attempt.run = oneRun operation command looks read) :
    (attempt >>= fun value => pure (change value)).run =
      oneRun operation command looks fun left => return change (← read left) :=
  run_read (fun value => .ok (change value)) reads

theorem run_treeEntries {flags line : List String} {path : String}
    (same : ["ls-tree", "-z", "--name-only", "--full-tree"] ++ flags ++
      [repository.branch, "--", path] = line) :
    (repository.treeEntries operation flags path).run =
      oneRun operation (.within repository.workingCopy line) true
        fun left => return entries (← concluded operation line left) := by
  subst same
  exact run_map run_ask

/-- The head is read from the run also if that failed. -/
theorem run_head : (repository.head operation).run =
    oneRun operation (.within repository.workingCopy
      ["rev-parse", "--verify", "--quiet", repository.branch]) true
      fun left => headOf operation
        (concluded operation ["rev-parse", "--verify", "--quiet", repository.branch] left) := by
  have same : (repository.head operation).run =
      (repository.ask operation ["rev-parse", "--verify", "--quiet", repository.branch]).run.bind
        fun told => .done (headOf operation told) := by
    rw [head, Attempt.run_result_bind]
    refine congrArg (Program.bind _) (funext fun told => ?_)
    cases told with
    | ok output =>
      show (liftM (readHead operation output) : Answering _).run = .done (readHead operation output)
      cases readHead operation output <;> rfl
    | error error =>
      cases error with
      | commandFailed operation arguments reason =>
        by_cases silent : reason = ""
        · subst silent
          rfl
        · simp [headOf, silent]
          rfl
      | _ => rfl
  rw [same, run_ask]
  exact oneRun_bind rfl fun fault => rfl

/-- Who asks about a path that is text goes on with its text. -/
theorem run_argument {α : Type} {path : Path} {text : String} {next : String → Answering α}
    (isText : path.text? = some text) :
    (liftM (path.argument operation) >>= next : Answering α) = next text := by
  simp only [Path.argument, isText]
  rfl

end

variable {query : Query}

/-- Every query that runs the program is one run with its reading. -/
theorem run_answer (runs : repository.Runs query) :
    (repository.answer query).run =
      oneRun query.operation (.within repository.workingCopy (repository.commandLine query))
        (!query.isOrder) (repository.reading query) := by
  cases query with
  | fileExists path =>
    obtain ⟨text, isText⟩ := Option.ne_none_iff_exists'.1 runs.2
    simp only [answer, fileExists, runs.1, Bool.false_eq_true, if_false, run_argument isText]
    refine (run_map (run_treeEntries rfl)).trans ?_
    simp only [bind_assoc, pure_bind]
    rfl
  | files directory =>
    obtain ⟨text, isText⟩ := Option.ne_none_iff_exists'.1 runs.2
    simp only [answer, branchFiles, runs.1, Bool.false_eq_true, if_false, run_argument isText]
    refine (run_map (run_treeEntries rfl)).trans ?_
    simp only [bind_assoc, pure_bind]
    rfl
  | lastCommit path =>
    obtain ⟨text, isText⟩ := Option.ne_none_iff_exists'.1 runs
    simp only [answer, run_argument isText]
    refine run_map (run_log ?_)
    simp [commandLine, Query.words, names, Query.behind, Query.paths, isText]
  | commitsAfter path start =>
    obtain ⟨text, isText⟩ := Option.ne_none_iff_exists'.1 runs
    simp only [answer, run_argument isText]
    refine run_log ?_
    simp [commandLine, Query.words, names, Query.behind, Query.paths, isText]
  | pull =>
    have line : (if repository.isCheckedOut then
          ["merge", "--ff-only", "--quiet", repository.counterpart]
        else ["fetch", "--quiet", ".",
          "refs/remotes/" ++ repository.counterpart ++ ":refs/heads/" ++ repository.branch]) =
        repository.commandLine .pull := by
      unfold commandLine Query.words names
      split <;> rfl
    simp only [answer, line]
    exact run_map run_run
  | mainBranch | ancestors | mergePoints | freshCommits => exact run_log rfl
  | filesIn | filesBetween => exact run_map run_ask
  | parents commit => exact run_read _ run_ask
  | fetch => exact run_map run_run
  | mainHead => exact run_head

/-- The other queries run nothing. -/
theorem asks_nothing (idle : ¬ repository.Runs query) :
    Attempt.Asks Host.Request.RunsNothing (repository.answer query) := by
  have unasked {α : Type} {path : Path} (operation : String) (next : String → Answering α)
      (noText : path.text? = none) :
      Attempt.Asks Host.Request.RunsNothing (liftM (path.argument operation) >>= next) := by
    simp only [Path.argument, noText]
    exact trivial
  cases query with
  | fileExists path =>
    show Attempt.Asks _ (repository.fileExists (Query.operation (.fileExists path)) path)
    unfold fileExists
    by_cases isOut : repository.isCheckedOut
    · rw [if_pos isOut]
      exact (asks_goOn (by exact nofun)).bind fun _ =>
        (asks_isThere (fun _ => by exact nofun) _).mapError
    · rw [if_neg isOut]
      exact unasked _ _ (by simpa [Runs, isOut] using idle)
  | files directory =>
    show Attempt.Asks _ (if repository.isCheckedOut then
        repository.workingFiles (Query.operation (.files directory)) directory
      else repository.branchFiles (Query.operation (.files directory)) directory)
    by_cases isOut : repository.isCheckedOut
    · rw [if_pos isOut]
      exact repository.asks_workingFiles (by exact nofun) (fun _ => by exact nofun)
        (fun _ => by exact nofun) directory
    · rw [if_neg isOut]
      exact unasked _ _ (by simpa [Runs, isOut] using idle)
  | lastCommit path => exact unasked _ _ (by simpa [Runs] using idle)
  | commitsAfter path start => exact unasked _ _ (by simpa [Runs] using idle)
  | _ => exact absurd trivial idle

/-! ## What a run leaves -/

variable {σ : Type} {handler : Program.Handler Host σ} {state : σ} {command : GitCommand}
  {left : GitOutput}

/-- A query that is told what a run left runs its own command line. It reads what was left, unless
the run went well and the token was set meanwhile. -/
theorem result_of_ran
    (ran : .ran command (.ok left) ∈ (repository.answer query).run.trace handler state) :
    command = .within repository.workingCopy (repository.commandLine query) ∧
      (((repository.answer query).run.run handler state).1 = repository.reading query left ∨
        left.status = 0 ∧
          ⟨.isCancelled, true⟩ ∈ (repository.answer query).run.trace handler state ∧
          ((repository.answer query).run.run handler state).1 =
            .error (.cancelled query.operation)) := by
  have through := Program.transcript_trace handler (repository.answer query).run state
  by_cases runs : repository.Runs query
  · rw [repository.run_answer runs] at through ran ⊢
    exact transcript_oneRun through ran
  · exact absurd rfl ((repository.asks_nothing runs).ends through _ ran command)

/-- What a query gives where the token is not set and the program leaves something. -/
theorem result_of_printed (runs : repository.Runs query)
    (goesOn : ∀ state, (handler .isCancelled state).1 = false)
    (leaves : ∀ state, (handler (.git (.within repository.workingCopy
      (repository.commandLine query))) state).1 = .ok left) :
    ((repository.answer query).run.run handler state).1 = repository.reading query left := by
  rw [repository.run_answer runs]
  exact run_oneRun goesOn leaves state

end GitRepository

end LocaleWatch
