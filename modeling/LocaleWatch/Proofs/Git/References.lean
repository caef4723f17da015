import LocaleWatch.Proofs.Git.Ranges
import Mathlib.Data.List.Basic

/-!
# References

Fetching, listing what is fresh and pulling are about two references: the main branch, and what was
downloaded of it. The commands name them in two ways. A full name begins with `refs/` and stands
for itself. A short name is looked for among the references, in a fixed order, so what it stands
for depends on what else there is: a tag comes before a branch of the same name, and a branch
before what was downloaded from a remote.

Where nothing of such a name is there, all commands mean the same two references. A tag that is
called like the main branch is compared in its stead, and a branch that is called like the
counterpart of the main branch is compared and merged in its stead, while the commands with full
names go on with the two that were meant.

## Main results

* `References.resolve?_eq_some_iff` — what a short name has to be free of.
* `GitRepository.same_references_iff` — when the commands mean the same two references.
-/

namespace LocaleWatch

open Text

/-! ## Names of references -/

/-- The references of a repository. Their names keep to the rules for names. -/
structure References where
  has : String → Bool
  noColon {name : String} (there : has name = true) : ':' ∉ name.toList
  noHidden {name : String} (there : has name = true) : ¬ ['/', '.'] <:+: name.toList
  noEnd {name : String} (there : has name = true) : name.toList.getLast? ≠ some '.'

namespace References

/-- Whether a name is a full one. -/
def IsFull (name : String) : Prop := "refs/".toList <+: name.toList

instance : DecidablePred IsFull := fun name =>
  inferInstanceAs (Decidable ("refs/".toList <+: name.toList))

/-- What stands before a short name in the full names that are tried for it, in their order. -/
def marks : List String := ["refs/", "refs/tags/", "refs/heads/", "refs/remotes/"]

/-- The reference that a name stands for. -/
def resolve? (references : References) (name : String) : Option String :=
  if IsFull name then some name else (marks.map (· ++ name)).find? references.has

/-- A name is a short one, and no reference has one of some marks before it. -/
def Free (references : References) (marks : List String) (name : String) : Prop :=
  ¬ IsFull name ∧ ∀ mark ∈ marks, references.has (mark ++ name) = false

instance (references : References) (marks : List String) (name : String) :
    Decidable (references.Free marks name) :=
  inferInstanceAs (Decidable (¬ IsFull name ∧ ∀ mark ∈ marks, _))

variable {references : References} {name : String}

/-- Nothing is itself with a mark before it. -/
theorem ne_mark_append {mark : String} (filled : mark ≠ "") : name ≠ mark ++ name := by
  intro same
  have length := congrArg String.length same
  rw [String.length_append] at length
  have : mark.length ≠ 0 := mt String.length_eq_zero_iff.1 filled
  omega

/-- Of some items one is found first if none before it is. -/
theorem find?_eq_some_iff_takeWhile {α : Type} [DecidableEq α] {items : List α} {item : α}
    {p : α → Bool} (mem : item ∈ items) (holds : p item = true) :
    items.find? p = some item ↔ ∀ earlier ∈ items.takeWhile (· ≠ item), p earlier = false := by
  induction items with
  | nil => contradiction
  | cons first more ih =>
    by_cases same : first = item
    · simp [same, holds]
    · have later : item ∈ more := (List.mem_cons.1 mem).resolve_left (Ne.symm same)
      cases found : p first with
      | true => simp [same, found]
      | false => simp [same, found, ih later]

/-- A name stands for the reference with a mark before it if it is a short name and no reference
has an earlier mark before it. -/
theorem resolve?_eq_some_iff {mark : String} (isMark : mark ∈ marks)
    (there : references.has (mark ++ name) = true) :
    references.resolve? name = some (mark ++ name) ↔
      references.Free (marks.takeWhile (· ≠ mark)) name := by
  have filled : mark ≠ "" := by
    rintro rfl
    exact absurd isMark (by decide)
  unfold resolve? Free
  by_cases full : IsFull name
  · simp [full, ne_mark_append filled]
  · have found : marks.find? (references.has ∘ (· ++ name)) = some mark ↔
        ∀ earlier ∈ marks.takeWhile (· ≠ mark), references.has (earlier ++ name) = false :=
      find?_eq_some_iff_takeWhile isMark there
    rw [if_neg full, List.find?_map, ← found]
    simp [full, Option.map_eq_some_iff]

end References

/-! ## What commands do with references -/

/-- The reference that is fetched and the one that it is written to, as a refspec names them: what
stands before the last colon and behind it. A `+` before them forces the second to follow. -/
def refspec? (argument : String) : Option (String × String) :=
  let names := if argument.toList.head? = some '+' then argument.toList.tail else argument.toList
  (cut? ':' names.reverse).map fun (target, source) =>
    (.ofList source.reverse, .ofList target.reverse)

/-- The references that a command line goes from and to, where `head` is the branch that is checked
out: a fetch goes from one reference to another, a merge to the branch that is checked out, and a
listing compares two. -/
def References.between? (references : References) (head : Option String) :
    List String → Option (String × String)
  | ["fetch", _, _, argument] => refspec? argument
  | ["merge", _, _, name] => do return (← references.resolve? name, ← head)
  | ["log", _, _, argument, _] =>
    match RevisionRange.read argument with
    | .between first second =>
      do return (← references.resolve? first, ← references.resolve? second)
    | _ => none
  | _ => none

/-- A full name and another with a colon in between are a refspec, also with a `+` before them, if
the second holds no colon. -/
theorem refspec?_eq {argument source target : String} (single : ':' ∉ target.toList)
    (full : References.IsFull source)
    (shape : argument.toList = source.toList ++ ':' :: target.toList ∨
      argument.toList = '+' :: (source.toList ++ ':' :: target.toList)) :
    refspec? argument = some (source, target) := by
  obtain ⟨rest, begins⟩ := full
  have plain : (source.toList ++ ':' :: target.toList).head? ≠ some '+' := by
    rw [← begins]
    simp
  have cut : cut? ':' (source.toList ++ ':' :: target.toList).reverse =
      some (target.toList.reverse, source.toList.reverse) :=
    cut?_eq_some_iff.2 ⟨by simp, by simpa using single⟩
  unfold refspec?
  rcases shape with shape | shape
  · rw [shape, if_neg plain]
    simp only [cut]
    simp
  · rw [shape]
    simp only [List.head?_cons, List.tail_cons, if_true, cut]
    simp

/-! ## The two references -/

namespace GitRepository

variable (repository : GitRepository)

/-- The main branch. -/
def branchReference : String := "refs/heads/" ++ repository.branch

/-- What was downloaded of the main branch. -/
def counterpartReference : String := "refs/remotes/" ++ repository.counterpart

theorem isFull_branchReference : References.IsFull repository.branchReference :=
  ⟨"heads/".toList ++ repository.branch.toList, by simp [branchReference, String.toList_append]⟩

theorem isFull_counterpartReference : References.IsFull repository.counterpartReference :=
  ⟨"remotes/".toList ++ repository.counterpart.toList,
    by simp [counterpartReference, String.toList_append]⟩

variable {repository} {references : References} {head : Option String}

/-- A fetch goes to what is downloaded of the main branch, by full names. -/
theorem between?_fetch (single : ':' ∉ repository.counterpartReference.toList) :
    references.between? head (repository.commandLine .fetch) =
      some (repository.branchReference, repository.counterpartReference) := by
  refine refspec?_eq single repository.isFull_branchReference (.inr ?_)
  simp [branchReference, counterpartReference, counterpart, String.toList_append]

/-- A pull beside the checked-out branch goes to the main branch, by full names. -/
theorem between?_pull_beside (beside : repository.isCheckedOut = false)
    (single : ':' ∉ repository.branchReference.toList) :
    references.between? head (repository.commandLine .pull) =
      some (repository.counterpartReference, repository.branchReference) := by
  have line : repository.commandLine .pull = ["fetch", "--quiet", ".",
      "refs/remotes/" ++ repository.counterpart ++ ":refs/heads/" ++ repository.branch] := by
    simp [commandLine, Query.words, names, Query.behind, beside]
  rw [line]
  refine refspec?_eq single repository.isFull_counterpartReference (.inl ?_)
  simp [branchReference, counterpartReference, String.toList_append]

/-- A pull of the branch that is checked out goes from what the counterpart's short name stands
for. -/
theorem between?_pull_checkedOut (checkedOut : repository.isCheckedOut = true) :
    references.between? head (repository.commandLine .pull) = do
      return (← references.resolve? repository.counterpart, ← head) := by
  have line : repository.commandLine .pull =
      ["merge", "--ff-only", "--quiet", repository.counterpart] := by
    simp [commandLine, Query.words, names, Query.behind, checkedOut]
  rw [line]
  rfl

/-- A listing of what is fresh compares what two short names stand for. -/
theorem between?_freshCommits (named : repository.Named)
    (hasBranch : references.has repository.branchReference = true)
    (hasCounterpart : references.has repository.counterpartReference = true) :
    references.between? head (repository.commandLine .freshCommits) = do
      return (← references.resolve? repository.branch,
        ← references.resolve? repository.counterpart) := by
  obtain ⟨filled, -⟩ := RefName.refusal?_eq_none_iff.1 named.branch
  have ends : repository.ends? .freshCommits = some (repository.branch, repository.counterpart) :=
    rfl
  obtain ⟨single, -⟩ := named.single_of_ends ends
  have ending : repository.branch.toList.getLast? ≠ some '.' := by
    have last := references.noEnd hasBranch
    rwa [branchReference, String.toList_append,
      List.getLast?_append_of_ne_nil _ (mt String.toList_eq_nil_iff.1 filled)] at last
  have beginning : repository.counterpart.toList.head? ≠ some '.' := by
    intro dot
    obtain ⟨rest, shape⟩ := List.head?_eq_some_iff.1 dot
    refine references.noHidden hasCounterpart ⟨"refs/remotes".toList, rest, ?_⟩
    simp [counterpartReference, String.toList_append, shape]
  have range : RevisionRange.read (repository.branch ++ ".." ++ repository.counterpart) =
      .between repository.branch repository.counterpart := by
    rw [RevisionRange.read_range single, if_neg ending, if_neg beginning]
  show (match RevisionRange.read (repository.branch ++ ".." ++ repository.counterpart) with
    | .between first second =>
      do return (← references.resolve? first, ← references.resolve? second)
    | _ => none : Option (String × String)) = _
  rw [range]

/-- What it takes that the commands mean the same two references. Let both be there. A fetch means
them anyway, and so does a pull beside the checked-out branch. A pull of the checked-out branch
means them exactly if the counterpart's short name stands for what was downloaded: if it is no full
name, and there is no tag or branch of that name nor another reference that is tried before. A
listing of what is fresh means them exactly if that holds, and the branch's short name stands for
the branch: if it is no full name, and there is no tag of that name nor another reference that is
tried before. -/
theorem same_references_iff {σ τ : Type} (opening : Program.Handler Host σ) (start : σ)
    (place : Path) (remote : String) (branch : Option String) (repository : GitRepository)
    (opened : ((openAt place remote branch).run.run opening start).1 = .ok repository)
    (references : References) (head : Option String)
    (checkedOut : repository.isCheckedOut = true → head = some repository.branchReference)
    (hasBranch : references.has repository.branchReference = true)
    (hasCounterpart : references.has repository.counterpartReference = true) :
    let between (query : Query) := references.between? head (repository.commandLine query)
    (∀ (query : Query) (answering : Program.Handler Host τ) (state : τ) (command : GitCommand)
        (told : Except Fault GitOutput),
      ⟨.git command, told⟩ ∈ (repository.answer query).run.trace answering state →
        command = .within repository.workingCopy (repository.commandLine query)) ∧
    between .fetch = some (repository.branchReference, repository.counterpartReference) ∧
    (repository.isCheckedOut = false →
      between .pull = some (repository.counterpartReference, repository.branchReference)) ∧
    (repository.isCheckedOut = true →
      (between .pull = some (repository.counterpartReference, repository.branchReference) ↔
        references.Free ["refs/", "refs/tags/", "refs/heads/"] repository.counterpart)) ∧
    (between .freshCommits = some (repository.branchReference, repository.counterpartReference) ↔
      references.Free ["refs/", "refs/tags/"] repository.branch ∧
        references.Free ["refs/", "refs/tags/", "refs/heads/"] repository.counterpart) := by
  intro between
  obtain ⟨named, -⟩ := (gives_openAt place remote branch).of_run opened
  have first : references.resolve? repository.branch = some repository.branchReference ↔
      references.Free ["refs/", "refs/tags/"] repository.branch :=
    References.resolve?_eq_some_iff (by decide) hasBranch
  have second : references.resolve? repository.counterpart = some repository.counterpartReference ↔
      references.Free ["refs/", "refs/tags/", "refs/heads/"] repository.counterpart :=
    References.resolve?_eq_some_iff (by decide) hasCounterpart
  refine ⟨fun query answering state command told ran => ?_,
    between?_fetch (references.noColon hasCounterpart),
    fun beside => between?_pull_beside beside (references.noColon hasBranch), fun isOut => ?_, ?_⟩
  · exact (repository.asks_answer query).ends (Program.transcript_trace answering _ state) _ ran
  · rw [← second]
    simp only [between, between?_pull_checkedOut isOut, checkedOut isOut]
    cases references.resolve? repository.counterpart <;> simp
  · rw [← first, ← second]
    simp only [between, between?_freshCommits named hasBranch hasCounterpart]
    cases references.resolve? repository.branch <;>
      cases references.resolve? repository.counterpart <;> simp

end GitRepository

/-- Some references with names that keep to the rules. -/
def References.ofList (names : List String)
    (colon : ∀ name ∈ names, ':' ∉ name.toList)
    (hidden : ∀ name ∈ names, ¬ ['/', '.'] <:+: name.toList)
    (ends : ∀ name ∈ names, name.toList.getLast? ≠ some '.') : References where
  has name := names.contains name
  noColon there := colon _ (List.contains_iff_mem.1 there)
  noHidden there := hidden _ (List.contains_iff_mem.1 there)
  noEnd there := ends _ (List.contains_iff_mem.1 there)

/-- A branch and its counterpart, a tag that is called like the branch and a branch that is called
like the counterpart. -/
def References.namesakes : References :=
  .ofList ["refs/heads/main", "refs/remotes/origin/main", "refs/tags/main",
    "refs/heads/origin/main"] (by decide +kernel) (by decide +kernel) (by decide +kernel)

namespace GitRepository

/-- A fetch means the branch and its counterpart, but a listing compares neither, and a pull goes
from a branch that was not downloaded. -/
theorem same_references_iff_namesakes :
    let between (query : Query) := References.namesakes.between? (some "refs/heads/main")
      (commandLine ⟨Path.ofText "/r/", "origin", "main", true⟩ query)
    between .fetch = some ("refs/heads/main", "refs/remotes/origin/main") ∧
      between .pull = some ("refs/heads/origin/main", "refs/heads/main") ∧
      between .pull ≠ some ("refs/remotes/origin/main", "refs/heads/main") ∧
      between .freshCommits = some ("refs/tags/main", "refs/heads/origin/main") ∧
      between .freshCommits ≠ some ("refs/heads/main", "refs/remotes/origin/main") := by
  intro between
  have agree := same_references_iff (τ := Machine) Machine.handle Machine.clone (Path.ofText "/r")
    "origin" none _ opened_clone References.namesakes (some "refs/heads/main") (fun _ => by decide)
    (by decide +kernel) (by decide +kernel)
  refine ⟨agree.2.1, ?_, ?_, ?_, ?_⟩
  · decide +kernel
  · exact fun same => absurd ((agree.2.2.2.1 rfl).1 same) (by decide +kernel)
  · decide +kernel
  · exact fun same => absurd (agree.2.2.2.2.1 same) (by decide +kernel)

end GitRepository

end LocaleWatch
