import LocaleWatch.Proofs.Git.Arguments

/-!
# Ranges of commits

Three questions are about a range of commits: the argument is two names with `..` in between. The
version-control program takes such an argument apart at its first `..`; if another full stop
follows, it reads `...`, which asks for what only one of the two names reaches, whichever it is.

Neither name holds `..`, so there is one separator and nothing else in between, unless a full stop
stands next to it. That happens if the first name ends with a full stop or the second one begins
with one, and both are accepted. Then the question is another one, and its answer is taken for an
answer to the one that was meant.

## Main results

* `RevisionRange.read_range` — how two names with `..` in between are read.
* `GitRepository.range_read` — how the ranges of an opened working copy are read.
-/

namespace LocaleWatch

/-! ## Separators -/

namespace Text

/-- What stands before the first `..` of a text and behind it. -/
def cutDoubleDot? : List Char → Option (List Char × List Char)
  | [] => none
  | c :: rest =>
    if c = '.' ∧ rest.head? = some '.' then some ([], rest.tail)
    else (cutDoubleDot? rest).map fun (before, behind) => (c :: before, behind)

/-- How often two full stops follow one another; `...` counts twice. -/
def countDoubleDots : List Char → Nat
  | [] => 0
  | c :: rest => countDoubleDots rest + if c = '.' ∧ rest.head? = some '.' then 1 else 0

theorem hasDoubleDot_cons (c : Char) (rest : List Char) :
    hasDoubleDot (c :: rest) = true ↔
      c = '.' ∧ rest.head? = some '.' ∨ hasDoubleDot rest = true := by
  by_cases dots : c = '.' ∧ rest.head? = some '.'
  · obtain ⟨rfl, first⟩ := dots
    obtain ⟨more, rfl⟩ := List.head?_eq_some_iff.1 first
    simp [hasDoubleDot]
  · rw [hasDoubleDot]
    · simp [dots]
    · rintro more rfl rfl
      exact dots ⟨rfl, rfl⟩

theorem countDoubleDots_eq_zero_iff {text : List Char} :
    countDoubleDots text = 0 ↔ hasDoubleDot text = false := by
  induction text with
  | nil => simp [countDoubleDots, hasDoubleDot]
  | cons c rest ih =>
    rw [countDoubleDots, ← Bool.not_eq_true, hasDoubleDot_cons, not_or, Bool.not_eq_true, ← ih]
    split <;> simp_all

/-- Where two texts meet, two full stops may do. -/
theorem countDoubleDots_append (first second : List Char) :
    countDoubleDots (first ++ second) = countDoubleDots first + countDoubleDots second +
      if first.getLast? = some '.' ∧ second.head? = some '.' then 1 else 0 := by
  induction first with
  | nil => simp [countDoubleDots]
  | cons c rest ih =>
    rw [List.cons_append, countDoubleDots, countDoubleDots, ih]
    cases rest with
    | nil => simp [countDoubleDots]
    | cons d more =>
      rw [List.getLast?_cons_cons, List.cons_append, List.head?_cons, List.head?_cons]
      omega

/-- A text is cut at a `..` that follows a text without one, or one full stop earlier. -/
theorem cutDoubleDot?_append {first second : List Char} (single : hasDoubleDot first = false) :
    cutDoubleDot? (first ++ '.' :: '.' :: second) =
      if first.getLast? = some '.' then some (first.dropLast, '.' :: second)
      else some (first, second) := by
  induction first with
  | nil => simp [cutDoubleDot?]
  | cons c rest ih =>
    have later : hasDoubleDot rest = false ∧ ¬ (c = '.' ∧ rest.head? = some '.') := by
      rw [← Bool.not_eq_true, hasDoubleDot_cons, not_or, Bool.not_eq_true] at single
      exact single.symm
    rw [List.cons_append, cutDoubleDot?]
    cases rest with
    | nil =>
      by_cases dot : c = '.'
      · simp [dot]
      · simp [dot, cutDoubleDot?]
    | cons d more =>
      rw [if_neg (by simpa using later.2), ih later.1, List.getLast?_cons_cons]
      split <;> simp

end Text

/-! ## How ranges are read -/

open Text

/-- What the version-control program takes an argument for. -/
inductive RevisionRange where
  | between (first second : String)
  | symmetric (first second : String)
  | single (name : String)
  deriving DecidableEq, Repr

namespace RevisionRange

/-- How an argument is read. -/
def read (argument : String) : RevisionRange :=
  match cutDoubleDot? argument.toList with
  | none => .single argument
  | some (before, behind) =>
    if behind.head? = some '.' then .symmetric (.ofList before) (.ofList behind.tail)
    else .between (.ofList before) (.ofList behind)

variable {first second : String}

private theorem toList_range (first second : String) :
    (first ++ ".." ++ second).toList = first.toList ++ '.' :: '.' :: second.toList := by
  simp [String.toList_append]

/-- Two names with `..` in between are read as the range between them, unless the first ends or the
second begins with a full stop. -/
theorem read_range (single : hasDoubleDot first.toList = false) :
    read (first ++ ".." ++ second) =
      if first.toList.getLast? = some '.' then
        .symmetric (.ofList first.toList.dropLast) second
      else if second.toList.head? = some '.' then
        .symmetric first (.ofList second.toList.tail)
      else .between first second := by
  rw [read, toList_range, cutDoubleDot?_append single]
  by_cases ending : first.toList.getLast? = some '.'
  · simp [ending]
  · by_cases beginning : second.toList.head? = some '.' <;> simp [ending, beginning]

/-- There is one separator, and one more wherever a full stop stands next to it. -/
theorem countDoubleDots_range (single : hasDoubleDot first.toList = false)
    (single' : hasDoubleDot second.toList = false) :
    countDoubleDots (first ++ ".." ++ second).toList =
      (if first.toList.getLast? = some '.' then 1 else 0) + 1 +
        (if second.toList.head? = some '.' then 1 else 0) := by
  have zero := countDoubleDots_eq_zero_iff.2 single
  have zero' := countDoubleDots_eq_zero_iff.2 single'
  rw [toList_range, countDoubleDots_append, zero]
  simp [countDoubleDots, zero']
  omega

end RevisionRange

namespace GitRepository

variable (repository : GitRepository)

/-- The two names of the range that a query is about. -/
def ends? : Query → Option (String × String)
  | .commitsAfter _ commit | .mergePoints commit => some (commit.text, repository.branch)
  | .freshCommits => some (repository.branch, repository.counterpart)
  | _ => none

variable {repository} {query : Query} {first second : String}

theorem names_of_ends (ends : repository.ends? query = some (first, second)) :
    repository.names query = [first ++ ".." ++ second] := by
  cases query <;> simp_all [ends?, names]

/-- Neither name of a range holds `..`. -/
theorem Named.single_of_ends (named : repository.Named)
    (ends : repository.ends? query = some (first, second)) :
    hasDoubleDot first.toList = false ∧ hasDoubleDot second.toList = false := by
  obtain ⟨-, remote, -⟩ := RefName.refusal?_eq_none_iff.1 named.remote
  obtain ⟨-, branch, -⟩ := RefName.refusal?_eq_none_iff.1 named.branch
  have commit (id : CommitId) : hasDoubleDot id.text.toList = false :=
    (CommitId.flaw?_eq_none_iff.1 id.wellFormed).2.2.1
  have counterpart : hasDoubleDot repository.counterpart.toList = false := by
    rw [← countDoubleDots_eq_zero_iff] at remote branch ⊢
    simp [GitRepository.counterpart, String.toList_append, countDoubleDots_append, remote, branch,
      countDoubleDots]
  cases query with
  | commitsAfter path id =>
    cases ends
    exact ⟨commit id, branch⟩
  | mergePoints id =>
    cases ends
    exact ⟨commit id, branch⟩
  | freshCommits =>
    cases ends
    exact ⟨branch, counterpart⟩
  | _ => contradiction

/-- How the ranges of an opened working copy are read. Each question about a range runs one command
line, in which the range is one argument. If the first name does not end and the second one does
not begin with a full stop, there is one separator in it, and it is read as the range between the
two names. Otherwise there are more, and it is read as what only one of two names reaches: the two
names without the full stop that stands next to the separator. -/
theorem range_read {σ τ : Type} (opening : Program.Handler Host σ) (start : σ)
    (place : Path) (remote : String) (branch : Option String) (repository : GitRepository)
    (opened : ((openAt place remote branch).run.run opening start).1 = .ok repository)
    (query : Query) (first second : String)
    (ends : repository.ends? query = some (first, second)) :
    let argument := first ++ ".." ++ second
    (∀ (answering : Program.Handler Host τ) (state : τ) (command : GitCommand)
        (told : Except Fault GitOutput),
      ⟨.git command, told⟩ ∈ (repository.answer query).run.trace answering state →
        command = .within repository.workingCopy
          (query.words repository.isCheckedOut ++ [argument] ++ query.behind)) ∧
    (first.toList.getLast? ≠ some '.' → second.toList.head? ≠ some '.' →
      RevisionRange.read argument = .between first second ∧
        countDoubleDots argument.toList = 1) ∧
    (first.toList.getLast? = some '.' →
      RevisionRange.read argument = .symmetric (.ofList first.toList.dropLast) second ∧
        1 < countDoubleDots argument.toList) ∧
    (first.toList.getLast? ≠ some '.' → second.toList.head? = some '.' →
      RevisionRange.read argument = .symmetric first (.ofList second.toList.tail) ∧
        1 < countDoubleDots argument.toList) := by
  intro argument
  obtain ⟨named, -⟩ := (gives_openAt place remote branch).of_run opened
  obtain ⟨single, single'⟩ := named.single_of_ends ends
  have count := RevisionRange.countDoubleDots_range single single'
  have reading : RevisionRange.read argument = _ := RevisionRange.read_range single
  refine ⟨fun answering state command told ran => ?_, fun ending beginning => ?_,
    fun ending => ?_, fun ending beginning => ?_⟩
  · have line := (repository.asks_answer query).ends
      (Program.transcript_trace answering _ state) _ ran
    rw [← names_of_ends ends]
    exact line
  · rw [reading, count, if_neg ending, if_neg beginning, if_neg ending, if_neg beginning]
    exact ⟨rfl, rfl⟩
  · rw [reading, count, if_pos ending, if_pos ending]
    exact ⟨rfl, by omega⟩
  · rw [reading, count, if_neg ending, if_pos beginning, if_pos beginning]
    exact ⟨rfl, by omega⟩

/-- The merges that bring in `topic.` are asked for as what only one of `topic` and `main`
reaches. -/
theorem range_read_topic :
    RevisionRange.read ("topic." ++ ".." ++ "main") = .symmetric "topic" "main" ∧
      1 < countDoubleDots ("topic." ++ ".." ++ "main").toList := by
  exact (range_read (τ := Machine) Machine.handle Machine.clone (Path.ofText "/r") "origin" none _
    opened_clone (.mergePoints ⟨"topic.", by decide +kernel⟩) _ _ rfl).2.2.1 (by decide +kernel)

end GitRepository

end LocaleWatch
