import LocaleWatch.Proofs.Git.Runs

/-!
# Failures are no answers

A run of the version-control program can fail, and it can go well and print something that has not
the form in which the query prints. Both are to be reported: the first as a failed command, with the
operation, the arguments and the complaint, the second as malformed output of the operation. An
answer is what the output shows, all of it.

Two queries take some outcomes for answers. The head takes every failing run without a complaint for
a branch without commits, although only the exit status 1 without any output says so. The parents
take all words but the first for the parents, although the first has to be a commit and the words
have to be one line; so where nothing is printed, the commit has no parents.

## Main results

* `readCommits_eq_ok_iff`, `readCommits_malformed` — when a listing of commits is read.
* `readParents_shown`, `readParents_eq_ok_iff` — when the parents of a commit are read.
* `GitRepository.outcome_reported_iff` — which outcomes of which queries are reported.
-/

namespace LocaleWatch

open Text

/-! ## Listings of commits -/

/-- An output lists commits: its filled lines are theirs, in order, and their timestamps are
words. -/
def Lists (output : String) (commits : List Commit) : Prop :=
  filledLines output = commits.map Commit.line ∧
    ∀ commit ∈ commits, commit.timestamp ≠ "" ∧ ' ' ∉ commit.timestamp.toList

/-- Lines are read as commits exactly if they are theirs. -/
theorem ofLines_eq_ok_iff {lines : List String} {commits : List Commit} :
    Commit.ofLines lines = .ok commits ↔ lines = commits.map Commit.line ∧
      ∀ commit ∈ commits, commit.timestamp ≠ "" ∧ ' ' ∉ commit.timestamp.toList := by
  induction lines generalizing commits with
  | nil =>
    cases commits <;> simp [Commit.ofLines]
  | cons line rest ih =>
    constructor
    · intro read
      cases found : Commit.ofLine? line with
      | none => simp [Commit.ofLines, found] at read
      | some commit =>
        obtain ⟨same, word⟩ := Commit.line_of_ofLine? found
        cases later : Commit.ofLines rest with
        | error line => simp [Commit.ofLines, found, later, Except.map] at read
        | ok more =>
          simp only [Commit.ofLines, found, later, Except.map, Except.ok.injEq] at read
          subst read
          obtain ⟨lines, words⟩ := ih.1 later
          simp only [List.map_cons, List.forall_mem_cons]
          exact ⟨by rw [same, lines], word, words⟩
    · rintro ⟨lines, words⟩
      cases commits with
      | nil => simp at lines
      | cons commit more =>
        simp only [List.map_cons, List.cons.injEq, List.forall_mem_cons] at lines words
        obtain ⟨rfl, lines⟩ := lines
        simp [Commit.ofLines, Commit.ofLine?_line words.1.1 words.1.2, ih.2 ⟨lines, words.2⟩,
          Except.map]

/-- The line for which lines are refused is the first that shows no commit. -/
theorem ofLines_eq_error {lines : List String} {line : String}
    (refused : Commit.ofLines lines = .error line) :
    ∃ before behind, lines = before ++ line :: behind ∧ Commit.ofLine? line = none ∧
      ∀ earlier ∈ before, Commit.ofLine? earlier ≠ none := by
  induction lines with
  | nil => simp [Commit.ofLines] at refused
  | cons first rest ih =>
    cases found : Commit.ofLine? first with
    | none =>
      simp only [Commit.ofLines, found, Except.error.injEq] at refused
      subst refused
      exact ⟨[], rest, rfl, found, nofun⟩
    | some commit =>
      cases later : Commit.ofLines rest with
      | ok more => simp [Commit.ofLines, found, later, Except.map] at refused
      | error bad =>
        simp only [Commit.ofLines, found, later, Except.map, Except.error.injEq] at refused
        subst refused
        obtain ⟨before, behind, rfl, shows, earlier⟩ := ih later
        refine ⟨first :: before, behind, rfl, shows, ?_⟩
        simpa [found] using earlier

section

variable {operation output : String}

/-- An output is read as commits exactly if it lists them. -/
theorem readCommits_eq_ok_iff {commits : List Commit} :
    readCommits operation output = .ok commits ↔ Lists output commits := by
  rw [Lists, ← ofLines_eq_ok_iff, readCommits]
  cases Commit.ofLines (filledLines output) <;> simp [Except.mapError]

/-- An output that lists no commits is refused for its first line that shows none. -/
theorem readCommits_malformed (broken : ∀ commits, ¬ Lists output commits) :
    ∃ before line behind, filledLines output = before ++ line :: behind ∧
      Commit.ofLine? line = none ∧ (∀ earlier ∈ before, Commit.ofLine? earlier ≠ none) ∧
      ∀ operation, readCommits operation output = .error (.malformed operation line) := by
  cases read : Commit.ofLines (filledLines output) with
  | ok commits => exact absurd (ofLines_eq_ok_iff.1 read) (broken commits)
  | error line =>
    obtain ⟨before, behind, lines, shows, earlier⟩ := ofLines_eq_error read
    refine ⟨before, line, behind, lines, shows, earlier, fun operation => ?_⟩
    simp [readCommits, read, Except.mapError]

end

/-! ## Parents -/

namespace Text

/-- A blank ends a word. -/
theorem splitBlanksFrom_append_blank {b : Char} (blank : isBlank b = true)
    (piece before behind : List Char) :
    splitBlanksFrom piece (before ++ b :: behind) =
      splitBlanksFrom piece before ++ splitBlanksFrom [] behind := by
  induction before generalizing piece with
  | nil =>
    by_cases empty : piece = [] <;> simp [splitBlanksFrom, blank, empty]
  | cons c rest ih =>
    by_cases ends : isBlank c
    · by_cases empty : piece = [] <;> simp [splitBlanksFrom, ends, empty, ih]
    · simp [splitBlanksFrom, ends, ih]

/-- A blank at the end is part of no word. -/
theorem splitBlanksFrom_blank_end {b : Char} (blank : isBlank b = true) (text : List Char) :
    splitBlanksFrom [] (text ++ [b]) = splitBlanksFrom [] text := by
  rw [splitBlanksFrom_append_blank blank]
  simp [splitBlanksFrom]

/-- A carriage return at the end of a line is part of no word. -/
theorem splitBlanksFrom_dropReturn (line : List Char) :
    splitBlanksFrom [] (dropReturn line) = splitBlanksFrom [] line := by
  unfold dropReturn
  by_cases ends : line.getLast? = some '\r'
  · obtain ⟨front, rfl⟩ := List.getLast?_eq_some_iff.1 ends
    rw [if_pos ends, List.dropLast_concat, splitBlanksFrom_blank_end (by decide)]
  · rw [if_neg ends]

/-- A text of one line has the words of that line. -/
theorem splitBlanks_of_lines {text : String} {line : List Char}
    (single : lines text.toList = [line]) :
    splitBlanks text = splitBlanks (String.ofList line) := by
  have joined := join_split '\n' text.toList
  obtain ⟨front, last, pieces⟩ : ∃ front last, split '\n' text.toList = front ++ [last] :=
    ⟨_, _, (List.dropLast_concat_getLast (split_ne_nil '\n' text.toList)).symm⟩
  simp only [lines, pieces, List.dropLast_concat, List.getLastD_concat] at single
  rw [pieces] at joined
  suffices same : splitBlanksFrom [] text.toList = splitBlanksFrom [] line by
    rw [splitBlanks, splitBlanks, same, String.toList_ofList]
  cases last with
  | nil =>
    obtain ⟨piece, rfl, rfl⟩ : ∃ piece, front = [piece] ∧ dropReturn piece = line := by
      simpa [List.map_eq_singleton_iff] using single
    have whole : text.toList = piece ++ ['\n'] := by simpa [List.intercalate] using joined.symm
    rw [whole, splitBlanksFrom_blank_end (by decide), splitBlanksFrom_dropReturn]
  | cons c rest =>
    obtain ⟨rfl, rfl⟩ : front = [] ∧ c :: rest = line := by
      cases front with
      | nil => simpa using single
      | cons piece more => simp at single
    have whole : text.toList = c :: rest := by simpa [List.intercalate] using joined.symm
    rw [whole]

end Text

/-- An output shows the parents of a commit: it is one line, whose words are the names of the commit
and of its parents. -/
def ShowsParents (output : String) (parents : List CommitId) : Prop :=
  ∃ (line : List Char) (commit : CommitId), lines output.toList = [line] ∧
    splitBlanks (String.ofList line) = commit.text :: parents.map CommitId.text

section

variable {operation output : String} {parents : List CommitId}

/-- Words are read as names of commits exactly if they are. -/
theorem mapM_parse_eq_ok_iff {error : RepositoryError} {words : List String} :
    (words.mapM fun word => (CommitId.parse word).mapError fun _ => error) = .ok parents ↔
      words = parents.map CommitId.text := by
  induction words generalizing parents with
  | nil =>
    cases parents <;> simp [pure, Except.pure]
  | cons word rest ih =>
    rw [List.mapM_cons]
    cases parents with
    | nil =>
      cases CommitId.parse word with
      | error flaw => simp [Except.mapError, bind, Except.bind]
      | ok commit =>
        simp only [Except.mapError, bind, Except.bind]
        split <;> simp [pure, Except.pure]
    | cons parent more =>
      rw [List.map_cons, List.cons.injEq, ← ih, eq_comm (a := word), ← CommitId.parse_eq_ok_iff]
      cases CommitId.parse word with
      | error flaw => simp [Except.mapError, bind, Except.bind]
      | ok commit =>
        simp only [Except.mapError, bind, Except.bind]
        split <;> simp_all [pure, Except.pure]

/-- Words that are not all names of commits are refused with the error. -/
theorem mapM_parse_eq_error {error : RepositoryError} {words : List String}
    (other : ∀ parents : List CommitId, words ≠ parents.map CommitId.text) :
    (words.mapM fun word => (CommitId.parse word).mapError fun _ => error) = .error error := by
  induction words with
  | nil => exact absurd rfl (other [])
  | cons word rest ih =>
    rw [List.mapM_cons]
    cases found : CommitId.parse word with
    | error flaw => rfl
    | ok commit =>
      have later : ∀ parents : List CommitId, rest ≠ parents.map CommitId.text := by
        rintro parents rfl
        exact other (commit :: parents) (by rw [List.map_cons, CommitId.parse_eq_ok_iff.1 found])
      rw [ih later]
      rfl

/-- The parents that are read are all words but the first, whatever that is. -/
theorem readParents_eq_ok_iff :
    GitRepository.readParents operation output = .ok parents ↔
      (splitBlanks output).drop 1 = parents.map CommitId.text :=
  mapM_parse_eq_ok_iff

/-- If some word but the first is no name, the output is refused. -/
theorem readParents_malformed
    (other : ∀ parents : List CommitId, (splitBlanks output).drop 1 ≠ parents.map CommitId.text) :
    GitRepository.readParents operation output = .error (.malformed operation (trim output)) :=
  mapM_parse_eq_error other

/-- Parents that are shown are read. -/
theorem readParents_shown (shown : ShowsParents output parents) :
    GitRepository.readParents operation output = .ok parents := by
  obtain ⟨line, commit, single, words⟩ := shown
  rw [readParents_eq_ok_iff, splitBlanks_of_lines single, words, List.drop_one, List.tail_cons]

end

/-! ## Queries -/

/-- An output shows an answer to a query. -/
def Query.Shows (output : String) : (query : Query) → query.Result → Prop
  | .lastCommit _, found => ∃ commits, Lists output commits ∧ found = commits.getLast?
  | .commitsAfter _ _, commits | .mainBranch, commits | .ancestors _, commits
  | .mergePoints _, commits | .freshCommits, commits => Lists output commits
  | .parents _, shown => ShowsParents output shown
  | .mainHead, head => ∃ commit : CommitId, trim output = commit.text ∧ head = some commit
  | .fileExists path, found => found = (entries output).contains path.key
  | .files directory, listed =>
    listed = ascending ((entries output).filterMap (GitRepository.relativeTo? directory.key))
  | .filesIn _, listed | .filesBetween _ _, listed => listed = filledLines output
  | .fetch, _ | .pull, _ => True

/-- What a run left says what the answer to a query is. -/
inductive Query.Says (left : GitOutput) : (query : Query) → query.Result → Prop
  | shown {query : Query} {value : query.Result} (wentWell : left.status = 0)
      (shows : query.Shows (lossyText left.output) value) : Says left query value
  /-- The run exits with the status 1 and prints nothing at all: there is no commit yet. -/
  | unborn (silent : left = ⟨1, [], []⟩) : Says left .mainHead none

/-- What a run left is taken for an answer to a query that it does not say. -/
inductive Query.Mistakes (left : GitOutput) : (query : Query) → query.Result → Prop
  /-- The run failed without a complaint: there is said to be no commit yet. -/
  | silent (failed : left.status ≠ 0) (other : left ≠ ⟨1, [], []⟩)
      (quiet : trim (lossyText left.complaint) = "") : Mistakes left .mainHead none
  /-- The output shows no parents, but all its words except the first are names of commits. -/
  | skipped {commit : CommitId} {parents : List CommitId} (wentWell : left.status = 0)
      (hides : ∀ shown, ¬ ShowsParents (lossyText left.output) shown)
      (words : (splitBlanks (lossyText left.output)).drop 1 = parents.map CommitId.text) :
      Mistakes left (.parents commit) parents

/-- What is quoted of an output that shows no answer to a query: of a listing of commits the first
line that shows none, and all of another output. -/
def Query.Quotes (output text : String) : Query → Prop
  | .parents _ | .mainHead => text = trim output
  | _ => ∃ before behind, filledLines output = before ++ text :: behind ∧
      Commit.ofLine? text = none ∧ ∀ earlier ∈ before, Commit.ofLine? earlier ≠ none

/-- The error that reports a run with some arguments that says nothing in answer to a query. -/
def Query.Blames (line : List String) (query : Query) (left : GitOutput)
    (error : RepositoryError) : Prop :=
  if left.status = 0 then
    ∃ text, query.Quotes (lossyText left.output) text ∧ error = .malformed query.operation text
  else error = .commandFailed query.operation (" ".intercalate line)
    (trim (lossyText left.complaint))

/-- A result reports what a run left: it is the answer that the run says, or the error if it says
none. -/
def Query.Reports (line : List String) (query : Query) (left : GitOutput)
    (result : Except RepositoryError query.Result) : Prop :=
  (∃ value, query.Says left value ∧ result = .ok value) ∨
    (∀ value, ¬ query.Says left value) ∧ ∃ error, query.Blames line left error ∧
      result = .error error

/-- What is taken for an answer says none. -/
theorem Query.Mistakes.not_said {left : GitOutput} {query : Query} {value : query.Result}
    (mistaken : query.Mistakes left value) (other : query.Result) : ¬ query.Says left other := by
  intro said
  cases mistaken with
  | silent failed different quiet =>
    cases said with
    | shown wentWell shows => exact failed wentWell
    | unborn silent => exact different silent
  | skipped wentWell hides words =>
    cases said with
    | shown _ shows => exact hides _ shows

namespace GitRepository

variable {repository : GitRepository} {query : Query} {left : GitOutput} {value : query.Result}

/-- A head that an output names is read. -/
theorem readHead_shown {operation output : String} {commit : CommitId}
    (named : trim output = commit.text) : readHead operation output = .ok (some commit) := by
  simp [readHead, named]

/-- An output that names no commit is refused. -/
theorem readHead_malformed {operation output : String}
    (other : ∀ commit : CommitId, trim output ≠ commit.text) :
    readHead operation output = .error (.malformed operation (trim output)) := by
  cases named : CommitId.parse (trim output) with
  | ok commit => exact absurd (CommitId.parse_eq_ok_iff.1 named).symm (other commit)
  | error flaw => simp [readHead, named]

/-- Of a run that went well, the head is what was printed. -/
theorem reading_head (wentWell : left.status = 0) :
    repository.reading .mainHead left =
      readHead (Query.operation .mainHead) (lossyText left.output) := by
  simp [reading, concluded, wentWell, headOf]

/-- What a run says is read. -/
theorem reading_said (said : query.Says left value) :
    repository.reading query left = .ok value := by
  cases said with
  | unborn silent =>
    subst silent
    rfl
  | shown wentWell shows =>
    cases query with
    | fileExists | files | filesIn | filesBetween =>
      simp only [reading, concluded_bind wentWell]
      exact congrArg Except.ok shows.symm
    | lastCommit =>
      obtain ⟨commits, lists, rfl⟩ := shows
      simp only [reading, concluded_bind wentWell, readCommits_eq_ok_iff.2 lists]
      rfl
    | commitsAfter | mainBranch | ancestors | mergePoints | freshCommits =>
      simp only [reading, concluded_bind wentWell, readCommits_eq_ok_iff]
      exact shows
    | parents =>
      simp only [reading, concluded_bind wentWell]
      exact readParents_shown shows
    | fetch | pull =>
      simp only [reading, concluded_bind wentWell]
      rfl
    | mainHead =>
      obtain ⟨commit, named, rfl⟩ := shows
      exact (reading_head wentWell).trans (readHead_shown named)

/-- What a run is mistaken to say is read. -/
theorem reading_mistakes (mistaken : query.Mistakes left value) :
    repository.reading query left = .ok value := by
  cases mistaken with
  | silent failed other quiet => simp [reading, concluded, headOf, failed, quiet]
  | skipped wentWell hides words =>
    simp only [reading, concluded_bind wentWell]
    exact readParents_eq_ok_iff.2 words

/-- A run that went well without showing an answer is malformed, if it is not mistaken to show
one. -/
theorem reading_malformed (wentWell : left.status = 0)
    (hides : ∀ value, ¬ query.Shows (lossyText left.output) value)
    (unmistaken : ∀ value, ¬ query.Mistakes left value) :
    ∃ text, query.Quotes (lossyText left.output) text ∧
      repository.reading query left = .error (.malformed query.operation text) := by
  cases query with
  | fileExists | files | filesIn | filesBetween => exact absurd rfl (hides _)
  | fetch | pull => exact absurd trivial (hides ())
  | lastCommit =>
    have broken : ∀ commits, ¬ Lists (lossyText left.output) commits :=
      fun commits lists => hides _ ⟨commits, lists, rfl⟩
    obtain ⟨before, line, behind, shape, flawed, earlier, refused⟩ := readCommits_malformed broken
    simp only [reading, concluded_bind wentWell, refused]
    exact ⟨line, ⟨before, behind, shape, flawed, earlier⟩, rfl⟩
  | commitsAfter | mainBranch | ancestors | mergePoints | freshCommits =>
    have broken : ∀ commits, ¬ Lists (lossyText left.output) commits := hides
    obtain ⟨before, line, behind, shape, flawed, earlier, refused⟩ := readCommits_malformed broken
    simp only [reading, concluded_bind wentWell, refused]
    exact ⟨line, ⟨before, behind, shape, flawed, earlier⟩, rfl⟩
  | parents =>
    have other (parents : List CommitId) :
        (splitBlanks (lossyText left.output)).drop 1 ≠ parents.map CommitId.text :=
      fun words => unmistaken parents (.skipped wentWell hides words)
    simp only [reading, concluded_bind wentWell, readParents_malformed other]
    exact ⟨_, rfl, rfl⟩
  | mainHead =>
    have other (commit : CommitId) : trim (lossyText left.output) ≠ commit.text :=
      fun named => hides _ ⟨commit, named, rfl⟩
    exact ⟨_, rfl, (reading_head wentWell).trans (readHead_malformed other)⟩

/-- A run that failed is a failed command, if it is not taken to say that there is no commit. -/
theorem reading_failed (failed : left.status ≠ 0) (silent : ∀ value, ¬ query.Says left value)
    (unmistaken : ∀ value, ¬ query.Mistakes left value) :
    repository.reading query left = .error (.commandFailed query.operation
      (" ".intercalate (repository.commandLine query)) (trim (lossyText left.complaint))) := by
  cases query with
  | mainHead =>
    by_cases quiet : trim (lossyText left.complaint) = ""
    · by_cases unborn : left = ⟨1, [], []⟩
      · exact absurd (.unborn unborn) (silent none)
      · exact absurd (.silent failed unborn quiet) (unmistaken none)
    · simp [reading, concluded, failed, headOf, quiet]
  | lastCommit | commitsAfter | mainBranch | ancestors | mergePoints | freshCommits | parents
    | fileExists | files | filesIn | filesBetween | fetch | pull =>
    simp [reading, concluded, failed, bind, Except.bind]

/-- A run that says nothing, and is not mistaken to say something, is reported. -/
theorem reading_blames (silent : ∀ value, ¬ query.Says left value)
    (unmistaken : ∀ value, ¬ query.Mistakes left value) :
    ∃ error, query.Blames (repository.commandLine query) left error ∧
      repository.reading query left = .error error := by
  by_cases wentWell : left.status = 0
  · simp only [Query.Blames, wentWell, if_true]
    obtain ⟨text, quotes, refused⟩ := repository.reading_malformed wentWell
      (fun value shows => silent value (.shown wentWell shows)) unmistaken
    exact ⟨_, ⟨text, quotes, rfl⟩, refused⟩
  · simp only [Query.Blames, wentWell, if_false]
    exact ⟨_, rfl, repository.reading_failed wentWell silent unmistaken⟩

variable {σ : Type} {handler : Program.Handler Host σ} {state : σ} {command : GitCommand}

/-- A query runs its own command line, and is told at the end that the token is set or reads what
the run left. It reports the run exactly if it does not mistake it for one that says something; the
two mistakes are answers. -/
theorem outcome_reported_iff
    (ran : .ran command (.ok left) ∈ (repository.answer query).run.trace handler state) :
    let result := ((repository.answer query).run.run handler state).1
    command = .within repository.workingCopy (repository.commandLine query) ∧
      (left.status = 0 ∧
          ⟨.isCancelled, true⟩ ∈ (repository.answer query).run.trace handler state ∧
          result = .error (.cancelled query.operation) ∨
        (query.Reports (repository.commandLine query) left result ↔
            ∀ value, ¬ query.Mistakes left value) ∧
          ∀ value, query.Mistakes left value → result = .ok value) := by
  intro result
  obtain ⟨same, read | halted⟩ := repository.result_of_ran ran
  · refine ⟨same, .inr ⟨⟨?_, ?_⟩, fun value mistaken => read.trans (reading_mistakes mistaken)⟩⟩
    · rintro reports value mistaken
      obtain ⟨other, said, _⟩ | ⟨_, error, _, refused⟩ := reports
      · exact mistaken.not_said other said
      · exact nomatch refused.symm.trans (read.trans (reading_mistakes mistaken))
    · intro unmistaken
      by_cases silent : ∀ value, ¬ query.Says left value
      · obtain ⟨error, blames, refused⟩ := repository.reading_blames silent unmistaken
        exact .inr ⟨silent, error, blames, read.trans refused⟩
      · obtain ⟨value, said⟩ := not_forall_not.1 silent
        exact .inl ⟨value, said, read.trans (reading_said said)⟩
  · exact ⟨same, .inl halted⟩

/-- A failure of which nothing is said is taken to mean that there is no commit yet. -/
theorem outcome_reported_iff_mute :
    let repository : GitRepository := ⟨Path.ofText "/r/", "origin", "main", true⟩
    let machine := { Machine.clone with rules := some [⟨"rev-parse", ⟨128, [], []⟩, none⟩] }
    let result := ((repository.answer .mainHead).run.run Machine.handle machine).1
    result = .ok none ∧
      ¬ Query.Reports ["rev-parse", "--verify", "--quiet", "main"] .mainHead ⟨128, [], []⟩
        result := by
  intro repository machine result
  let command : GitCommand :=
    .within repository.workingCopy ["rev-parse", "--verify", "--quiet", "main"]
  have left : (machine.git command).1 = .ok ⟨128, [], []⟩ := by
    decide +kernel
  have ran : .ran command (.ok ⟨128, [], []⟩) ∈
      (repository.answer .mainHead).run.trace Machine.handle machine := by
    rw [← left]
    exact .tail _ (.head _)
  have mistaken : Query.Mistakes ⟨128, [], []⟩ .mainHead none :=
    .silent (by decide) (by decide) (by decide)
  obtain ⟨-, halted | ⟨reported, mistakes⟩⟩ := outcome_reported_iff ran
  · exact absurd halted.1 (by decide)
  · exact ⟨mistakes none mistaken, fun reports => reported.1 reports none mistaken⟩

end GitRepository

end LocaleWatch
