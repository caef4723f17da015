import LocaleWatch.Git.Opening
import LocaleWatch.Proofs.Cancellation.Git
import LocaleWatch.Proofs.Program.Contract
import LocaleWatch.Proofs.Program.Transcript
import LocaleWatch.Rehearsal.Machine
import Mathlib.Data.List.TakeWhile

/-!
# Arguments of the version-control program

A query runs one command line, whatever it is told. The line starts with words that belong to the
operation: the subcommand and its options. Then come the names, which are made of commits, of the
remote and of the branch, and behind `--`, if there is one, the paths.

The program takes for an option what begins with a hyphen, up to the first `--`. No name does: a
commit's name and those that a working copy is opened with begin with another character, and a
name that is put together begins with its first part. So the options of a command line are those
of its fixed words, and no value adds one.

## Main results

* `GitRepository.asks_answer` — the command line of each query.
* `GitRepository.gives_openAt` — the names that a working copy is opened with.
* `GitRepository.no_option_injected` — no value is taken for an option.
-/

namespace LocaleWatch

open Text

/-! ## Options -/

/-- Whether an argument begins as options do. -/
def IsOption (argument : String) : Prop := argument.toList.head? = some '-'

instance : DecidablePred IsOption := fun argument =>
  inferInstanceAs (Decidable (argument.toList.head? = some '-'))

/-- The options among some arguments: no argument from the first `--` on is one. -/
def optionsAmong (arguments : List String) : List String :=
  (arguments.takeWhile (· ≠ "--")).filter fun argument => IsOption argument

/-- A text that is put together begins as its first part does. -/
theorem isOption_append {first second : String} (filled : first ≠ "") :
    IsOption (first ++ second) ↔ IsOption first := by
  have shape : first.toList ≠ [] := mt String.toList_eq_nil_iff.1 filled
  obtain ⟨c, rest, shape⟩ := List.exists_cons_of_ne_nil shape
  simp [IsOption, String.toList_append, shape]

/-- Arguments that are no options add none. -/
theorem optionsAmong_append {words names : List String} (undivided : "--" ∉ words)
    (plain : ∀ name ∈ names, ¬ IsOption name) {behind : List String}
    (closed : behind = [] ∨ ∃ paths, behind = "--" :: paths) :
    optionsAmong (words ++ names ++ behind) = optionsAmong words := by
  have before : ∀ argument ∈ words ++ names, decide (argument ≠ "--") = true := by
    intro argument mem
    rw [decide_eq_true_eq]
    rintro rfl
    rcases List.mem_append.1 mem with mem | mem
    · exact undivided mem
    · exact plain _ mem (by decide)
  have none : names.filter (fun argument => IsOption argument) = [] :=
    List.filter_eq_nil_iff.2 fun name mem => by simpa using plain name mem
  have ends : behind.takeWhile (· ≠ "--") = [] := by
    rcases closed with rfl | ⟨paths, rfl⟩
    · rfl
    · simp
  have first : words.takeWhile (· ≠ "--") = words :=
    List.takeWhile_eq_self_iff.2 fun argument mem => before argument (List.mem_append_left _ mem)
  rw [optionsAmong, optionsAmong, List.takeWhile_append_of_pos before, ends, first,
    List.append_nil, List.filter_append, none, List.append_nil]

/-! ## Command lines -/

/-- The words with which the command line of a query begins: the subcommand and its options. -/
def Query.words (isCheckedOut : Bool) : Query → List String
  | .fileExists _ => ["ls-tree", "-z", "--name-only", "--full-tree"]
  | .files _ => ["ls-tree", "-z", "--name-only", "--full-tree", "-r"]
  | .lastCommit _ => ["log", Commit.listingFormat, "-1"]
  | .commitsAfter _ _ => ["log", Commit.listingFormat, "--reverse"]
  | .mainBranch | .ancestors _ | .freshCommits => ["log", Commit.listingFormat, "--first-parent"]
  | .mergePoints _ =>
    ["log", Commit.listingFormat, "--ancestry-path", "--merges", "--reverse"]
  | .filesIn _ => ["diff-tree", "--no-commit-id", "--name-only", "-r", "--root"]
  | .parents _ => ["rev-list", "--parents", "-n", "1"]
  | .filesBetween _ _ => ["diff", "--name-only"]
  | .fetch => ["fetch", "--quiet"]
  | .pull => if isCheckedOut then ["merge", "--ff-only", "--quiet"] else ["fetch", "--quiet", "."]
  | .mainHead => ["rev-parse", "--verify", "--quiet"]

/-- The paths of a query, as they are given. A path that is no text is given to no program. -/
def Query.paths : Query → List String
  | .fileExists path | .files path => [path.key]
  | .lastCommit path | .commitsAfter path _ => path.text?.toList
  | _ => []

/-- What stands behind the names: `--` and the paths. Some subcommands take none. -/
def Query.behind (query : Query) : List String :=
  match query with
  | .filesIn _ | .fetch | .pull | .mainHead => []
  | _ => "--" :: query.paths

namespace GitRepository

variable (repository : GitRepository)

/-- The arguments that are made of commits, the remote and the branch. -/
def names : Query → List String
  | .fileExists _ | .files _ | .lastCommit _ | .mainBranch | .mainHead => [repository.branch]
  | .commitsAfter _ commit | .mergePoints commit => [commit.text ++ ".." ++ repository.branch]
  | .ancestors commit | .filesIn commit | .parents commit => [commit.text]
  | .filesBetween first last => [first.text, last.text]
  | .fetch => [repository.remote, "+refs/heads/" ++ repository.branch ++ ":refs/remotes/" ++
      repository.remote ++ "/" ++ repository.branch]
  | .pull =>
    if repository.isCheckedOut then [repository.counterpart]
    else ["refs/remotes/" ++ repository.counterpart ++ ":refs/heads/" ++ repository.branch]
  | .freshCommits => [repository.branch ++ ".." ++ repository.counterpart]

/-- The command line of a query. -/
def commandLine (query : Query) : List String :=
  query.words repository.isCheckedOut ++ repository.names query ++ query.behind

/-- What is asked of the system for a query: its command line is run, the token is looked at, and
files may be looked for. -/
def MayAsk (query : Query) : Host.Request → Prop
  | .git command => command = .within repository.workingCopy (repository.commandLine query)
  | .isCancelled | .kind _ | .walk _ => True
  | _ => False

/-! ## Going through the queries -/

section

variable {repository} {query : Query} {operation : String}

theorem mayAsk_goOn : Attempt.Asks (repository.MayAsk query) (goOn operation) :=
  asks_goOn trivial

theorem mayAsk_run {arguments : List String} (same : arguments = repository.commandLine query) :
    Attempt.Asks (repository.MayAsk query) (repository.run operation arguments) := by
  subst same
  refine mayAsk_goOn.bind fun _ => Attempt.Asks.bind (Attempt.Asks.mapError ?_) fun done => ?_
  · exact ⟨rfl, fun _ => trivial⟩
  · by_cases failed : done.status ≠ 0
    · rw [if_pos failed]
      exact .throw _
    · rw [if_neg failed]
      exact .pure _

theorem mayAsk_ask {arguments : List String} (same : arguments = repository.commandLine query) :
    Attempt.Asks (repository.MayAsk query) (repository.ask operation arguments) :=
  (mayAsk_run same).bind fun _ => mayAsk_goOn.bind fun _ => .pure _

/-- What is read from the output of a run asks for nothing. -/
theorem mayAsk_read {α : Type} (read : Except RepositoryError α) :
    Attempt.Asks (repository.MayAsk query) (liftM read : Answering α) := by
  cases read <;> exact trivial

theorem mayAsk_log {arguments : List String}
    (same : "log" :: Commit.listingFormat :: arguments = repository.commandLine query) :
    Attempt.Asks (repository.MayAsk query) (repository.log operation arguments) :=
  (mayAsk_ask same).bind fun _ => mayAsk_read _

theorem mayAsk_treeEntries {flags : List String} {path : String}
    (same : ["ls-tree", "-z", "--name-only", "--full-tree"] ++ flags ++
      [repository.branch, "--", path] = repository.commandLine query) :
    Attempt.Asks (repository.MayAsk query) (repository.treeEntries operation flags path) :=
  (mayAsk_ask same).bind fun _ => .pure _

theorem mayAsk_head (same : ["rev-parse", "--verify", "--quiet", repository.branch] =
    repository.commandLine query) :
    Attempt.Asks (repository.MayAsk query) (repository.head operation) := by
  unfold Attempt.Asks head
  rw [Attempt.run_result_bind]
  refine Program.Asks.bind (mayAsk_ask same) fun told => ?_
  split
  · exact mayAsk_read _
  · exact trivial
  · exact trivial

/-- Who has a path that is text goes on with its text. -/
theorem mayAsk_argument {α : Type} {path : Path} {next : String → Answering α}
    (rest : ∀ text, path.text? = some text → Attempt.Asks (repository.MayAsk query) (next text)) :
    Attempt.Asks (repository.MayAsk query) (liftM (path.argument operation) >>= next) := by
  unfold Path.argument
  cases found : path.text? with
  | none => exact trivial
  | some text => exact rest text found

end

/-- Whatever is told, a query runs its command line and no other. -/
theorem asks_answer (query : Query) :
    Attempt.Asks (repository.MayAsk query) (repository.answer query) := by
  cases query with
  | fileExists path =>
    unfold answer fileExists
    split
    · exact mayAsk_goOn.bind fun _ => (asks_isThere (fun _ => trivial) _).mapError
    · exact mayAsk_argument fun _ _ => (mayAsk_treeEntries rfl).bind fun _ => .pure _
  | files directory =>
    unfold answer
    split
    · exact repository.asks_workingFiles trivial (fun _ => trivial) (fun _ => trivial) directory
    · exact mayAsk_argument fun _ _ => (mayAsk_treeEntries rfl).bind fun _ => .pure _
  | lastCommit path =>
    refine mayAsk_argument fun text same => (mayAsk_log ?_).bind fun _ => .pure _
    simp [commandLine, Query.words, names, Query.behind, Query.paths, same]
  | commitsAfter path start =>
    refine mayAsk_argument fun text same => mayAsk_log ?_
    simp [commandLine, Query.words, names, Query.behind, Query.paths, same]
  | mainBranch => exact mayAsk_log rfl
  | ancestors commit => exact mayAsk_log rfl
  | mergePoints commit => exact mayAsk_log rfl
  | filesIn commit => exact (mayAsk_ask rfl).bind fun _ => .pure _
  | parents commit => exact (mayAsk_ask rfl).bind fun _ => mayAsk_read _
  | filesBetween first last => exact (mayAsk_ask rfl).bind fun _ => .pure _
  | fetch => exact (mayAsk_run rfl).bind fun _ => .pure _
  | pull =>
    refine (mayAsk_run ?_).bind fun _ => .pure _
    unfold commandLine Query.words names
    split <;> rfl
  | freshCommits => exact mayAsk_log rfl
  | mainHead => exact mayAsk_head rfl

/-! ## Names -/

/-- The names of a repository are accepted ones. -/
structure Named (repository : GitRepository) : Prop where
  remote : RefName.refusal? repository.remote = none
  branch : RefName.refusal? repository.branch = none

theorem gives_check {role name : String} :
    Attempt.Gives (liftM (RefName.check role name) : Answering Unit)
      fun _ => RefName.refusal? name = none := by
  cases checked : RefName.check role name with
  | error error => exact trivial
  | ok => exact RefName.check_eq_ok_iff.1 checked

/-- Whoever opens a working copy gets a repository with the remote that was named and the branch
that was named, if one was, and both are accepted names. -/
theorem gives_openAt (place : Path) (remote : String) (branch : Option String) :
    Attempt.Gives (openAt place remote branch) fun repository =>
      repository.Named ∧ repository.remote = remote ∧
        ∀ name, branch = some name → repository.branch = name := by
  have named (workingCopy : Path) (name : String) (current : Except RepositoryError String)
      (valid : RefName.refusal? remote = none)
      (chosen : ∀ other, branch = some other → name = other) :
      Attempt.Gives (do
        RefName.check "branch" name
        return ⟨workingCopy, remote, name, current.toOption = some name⟩ : Answering GitRepository)
        fun repository => repository.Named ∧ repository.remote = remote ∧
          ∀ name, branch = some name → repository.branch = name :=
    gives_check.bind fun _ accepted => .pure ⟨⟨valid, accepted⟩, rfl, chosen⟩
  refine gives_check.bind fun _ valid => ?_
  refine Attempt.Gives.after fun workingCopy => Attempt.Gives.after fun current => ?_
  split
  · exact named _ _ _ valid fun _ => Option.some.inj
  · exact named _ _ _ valid nofun
  · exact Attempt.Gives.after fun again => named _ _ _ valid nofun

end GitRepository

theorem CommitId.filled (id : CommitId) : id.text ≠ "" :=
  (CommitId.flaw?_eq_none_iff.1 id.wellFormed).1

theorem CommitId.not_isOption (id : CommitId) : ¬ IsOption id.text :=
  (CommitId.flaw?_eq_none_iff.1 id.wellFormed).2.1

/-- A name is accepted exactly if it is not empty, holds no `..` and no character below the space,
and starts with no hyphen. -/
theorem RefName.refusal?_eq_none_iff {name : String} :
    RefName.refusal? name = none ↔
      name ≠ "" ∧ Text.hasDoubleDot name.toList = false ∧ ¬ IsOption name ∧
        ∀ c ∈ name.toList, ¬ c.toNat < 0x20 := by
  unfold RefName.refusal? IsOption
  have empty : name.isEmpty = true ↔ name = "" := String.isEmpty_iff
  split_ifs <;> simp_all

namespace GitRepository

variable {repository : GitRepository} {query : Query}

/-- No name is an option. -/
theorem Named.not_isOption (named : repository.Named) (query : Query) :
    ∀ name ∈ repository.names query, ¬ IsOption name := by
  obtain ⟨-, -, remote, -⟩ := RefName.refusal?_eq_none_iff.1 named.remote
  obtain ⟨filled, -, branch, -⟩ := RefName.refusal?_eq_none_iff.1 named.branch
  obtain ⟨filled', -⟩ := RefName.refusal?_eq_none_iff.1 named.remote
  have commit (id : CommitId) (rest : String) : ¬ IsOption (id.text ++ rest) :=
    fun option => id.not_isOption ((isOption_append id.filled).1 option)
  have mark {first : String} (fixed : first ≠ "" ∧ ¬ IsOption first) (rest : String) :
      ¬ IsOption (first ++ rest) :=
    fun option => fixed.2 ((isOption_append fixed.1).1 option)
  cases query with
  | pull =>
    rw [names]
    split
    · simpa [counterpart, String.append_assoc, isOption_append filled'] using remote
    · simpa [String.append_assoc] using mark (by decide) _
  | fetch => simpa [names, remote, String.append_assoc] using mark (by decide) _
  | freshCommits => simpa [names, String.append_assoc, isOption_append filled] using branch
  | commitsAfter path start => simpa [names, String.append_assoc] using commit start _
  | mergePoints id => simpa [names, String.append_assoc] using commit id _
  | ancestors id => simpa [names] using id.not_isOption
  | filesIn id => simpa [names] using id.not_isOption
  | parents id => simpa [names] using id.not_isOption
  | filesBetween first last => simpa [names] using ⟨first.not_isOption, last.not_isOption⟩
  | fileExists path => simpa [names] using branch
  | files directory => simpa [names] using branch
  | lastCommit path => simpa [names] using branch
  | mainBranch => simpa [names] using branch
  | mainHead => simpa [names] using branch

end GitRepository

namespace Query

theorem dashes_not_mem_words (isCheckedOut : Bool) (query : Query) :
    "--" ∉ query.words isCheckedOut := by
  cases query <;> cases isCheckedOut <;> simp [words, Commit.listingFormat]

/-- The fixed words are those of the operation, whatever it is asked about. -/
theorem words_of_operation {query other : Query} (same : other.operation = query.operation)
    (isCheckedOut : Bool) : other.words isCheckedOut = query.words isCheckedOut := by
  cases query <;> cases other <;> first | rfl | simp [operation] at same

/-- The paths stand behind `--`. -/
theorem behind_cases (query : Query) :
    query.behind = [] ∧ query.paths = [] ∨ query.behind = "--" :: query.paths := by
  cases query <;> simp [behind, paths]

end Query

namespace GitRepository

/-- No value is taken for an option. Let a working copy be opened with any remote and any branch,
named or found checked out, and let it be asked anything about any commits and paths. Every command
line that is run then consists of fixed words, which belong to the operation; of names, which are
made of the remote, the branch and the commits; and, behind `--`, of the paths. No name begins with
a hyphen. So the options that the program finds are those among the fixed words. -/
theorem no_option_injected {σ τ : Type} (opening : Program.Handler Host σ) (start : σ)
    (place : Path) (remote : String) (branch : Option String) (repository : GitRepository)
    (opened : ((openAt place remote branch).run.run opening start).1 = .ok repository)
    (query : Query) (answering : Program.Handler Host τ) (state : τ) (command : GitCommand)
    (told : Except Fault GitOutput)
    (ran : ⟨.git command, told⟩ ∈ (repository.answer query).run.trace answering state) :
    let words := query.words repository.isCheckedOut
    let names := repository.names query
    command = .within repository.workingCopy (words ++ names ++ query.behind) ∧
      (∀ other : Query, other.operation = query.operation →
        other.words repository.isCheckedOut = words) ∧
      (∀ name ∈ names, ¬ IsOption name) ∧
      (query.behind = [] ∧ query.paths = [] ∨ query.behind = "--" :: query.paths) ∧
      optionsAmong (words ++ names ++ query.behind) = optionsAmong words := by
  intro words names
  obtain ⟨named, -⟩ := (gives_openAt place remote branch).of_run opened
  have line : command = .within repository.workingCopy (repository.commandLine query) :=
    (repository.asks_answer query).ends (Program.transcript_trace answering _ state) _ ran
  refine ⟨line, fun other same => Query.words_of_operation same _, named.not_isOption query,
    query.behind_cases, ?_⟩
  refine optionsAmong_append (query.dashes_not_mem_words _) (named.not_isOption query) ?_
  exact query.behind_cases.imp And.left fun paths => ⟨_, paths⟩

end GitRepository

/-- A machine with a working copy in which the branch `main` is checked out. -/
def Machine.clone : Machine where
  files := ⟨[
    ([bytes "r"], .directory),
    ([bytes "r", bytes ".git"], .directory),
    ([bytes "r", bytes ".git", bytes "HEAD"], .file (bytes "ref: refs/heads/main\n")),
    ([bytes "r", bytes ".git", bytes "objects"], .directory),
    ([bytes "r", bytes ".git", bytes "refs"], .directory),
    ([bytes "r", bytes ".git", bytes "refs", bytes "heads"], .directory),
    ([bytes "r", bytes ".git", bytes "refs", bytes "heads", bytes "main"],
      .file (List.replicate 40 0x31))]⟩
  directory := []

namespace GitRepository

set_option maxRecDepth 100000 in
/-- The branch that is checked out is the main branch if none is named. -/
theorem opened_clone :
    ((openAt (Path.ofText "/r") "origin" none).run.run Machine.handle Machine.clone).1 =
      .ok ⟨Path.ofText "/r/", "origin", "main", true⟩ := by
  have same : ((openAt (Path.ofText "/r") "origin" none).run.run Machine.handle
      Machine.clone).1.toOption = some ⟨Path.ofText "/r/", "origin", "main", true⟩ := by
    decide +kernel
  cases told : ((openAt (Path.ofText "/r") "origin" none).run.run Machine.handle
      Machine.clone).1 with
  | error error =>
    rw [told] at same
    contradiction
  | ok repository =>
    rw [told] at same
    exact congrArg Except.ok (Option.some.inj same)

/-- Asked for the merges that bring in a commit, the program finds the options of that question. -/
theorem no_option_injected_clone :
    let commit : CommitId := ⟨"0f1e", by decide +kernel⟩
    let words := ["log", Commit.listingFormat, "--ancestry-path", "--merges", "--reverse"]
    let command : GitCommand :=
      .within (Path.ofText "/r/") (words ++ ["0f1e" ++ ".." ++ "main"] ++ ["--"])
    (⟨.git command, (Machine.clone.git command).1⟩ : Event Host) ∈
        ((answer ⟨Path.ofText "/r/", "origin", "main", true⟩
          (.mergePoints commit)).run.trace Machine.handle Machine.clone) ∧
      optionsAmong (words ++ ["0f1e" ++ ".." ++ "main"] ++ ["--"]) = optionsAmong words := by
  intro commit words command
  have ran : (⟨.git command, (Machine.clone.git command).1⟩ : Event Host) ∈
      ((answer ⟨Path.ofText "/r/", "origin", "main", true⟩
        (.mergePoints commit)).run.trace Machine.handle Machine.clone) :=
    .tail _ (.head _)
  have injected := no_option_injected Machine.handle Machine.clone (Path.ofText "/r") "origin" none
    _ opened_clone (.mergePoints commit) Machine.handle Machine.clone _ _ ran
  exact ⟨ran, injected.2.2.2.2⟩

end GitRepository

end LocaleWatch
