import LocaleWatch.Proofs.History.Permanence

/-!
# Names of commits

A commit can be asked about by its own id, but also by a shorter form of it or by the name of a
branch or a tag. The repository does not mind: it answers for whatever commit the name denotes. But
whether a commit is on the main branch is found out by comparing names, and entries are kept under
the name that was asked about. So a name is never taken for a commit on the main branch, and what
was found under it once is given ever after, whatever it denotes then.

## Main results

* `Surroundings.answers_by_name` — what is given under a name and under the id of the commit that it
  denotes.
* `Surroundings.answers_by_name_tagged` — a tag on the main branch.
-/

namespace LocaleWatch

open History

/-- A name denotes a commit: the repository lists the commit first among the ancestors, and has the
same to say of the name and of the commit's id. -/
structure Denotes (answers : Answers) (name : CommitId) (named : Commit)
    (chain points : List Commit) : Prop where
  listed : answers (.ancestors name) = .ok (named :: chain)
  listed_id : answers (.ancestors named.id) = .ok (named :: chain)
  merging : answers (.mergePoints name) = .ok points
  merging_id : answers (.mergePoints named.id) = .ok points

/-! ## Lookups after the main branch was looked up -/

/-- A lookup of the main branch leaves other categories alone. -/
private theorem Surroundings.entries_after_mainBranch {σ : Type} {S : Surroundings σ}
    {category key : String} (ne : category ≠ mainBranchCategory) (state : σ) :
    S.entries (S.after mainBranch state) category key = S.entries state category key := by
  let kind (other : σ) : Prop := S.entries other category key = S.entries state category key
  have quiet : S.Undisturbed kind := fun quiet holds =>
    (congrFun (congrFun (S.entries_spared (Tracking.Request.sparesEntries_of_isQuiet quiet)) _)
      _).trans holds
  have admits : S.Admits kind mainBranchCategory := by
    intro other bytes state holds
    show S.entries _ category key = _
    rcases entries_write_cases mainBranchCategory other bytes state with same | same
    · rw [same, Entries.put_of_category ne]
      exact holds
    · rw [same]
      exact holds
  have lookup : Attempt.Keeps S.handler kind
      (Cache.get mainBranchCategory "" (Tracking.query .mainBranch)) fun _ => True :=
    keeps_lookup quiet admits (keeps_asked quiet rfl)
  have main : Attempt.Keeps S.handler kind mainBranch fun _ => True :=
    lookup.andThen fun commits => .pure trivial
  exact (keeps_run main rfl).1

section

variable {answers : Answers} {entries : Entries} {main : MainBranch} {commit : CommitId}
  (isMain : lookedUp answers mainBranch entries = .ok main)
include isMain

private theorem lookedUp_onMain {α : Type} (rest : MainBranch → History α) :
    lookedUp answers (mainBranch >>= rest) entries =
      lookedUp answers (rest main) (leftBy answers mainBranch entries) := by
  rw [lookedUp_bind, isMain]
  rfl

private theorem found_isOnMain :
    lookedUp answers (isOnMain commit) entries = .ok (main.contains commit) :=
  lookedUp_onMain isMain _

omit isMain in
variable (answers) in
private theorem shows_left {α : Type} [JsonForm α] {category key : String} {found : Option α}
    (ne : category ≠ mainBranchCategory) (shown : entries.Shows category key found) :
    (leftBy answers mainBranch entries).Shows category key found :=
  shown.congr (Surroundings.entries_after_mainBranch (S := settled answers) ne ((), entries))

/-- Of a commit whose name is none on the main branch the kept fork commit is given, or else the
first ancestor on it. -/
private theorem found_fork {kept : Option Commit}
    (shown : entries.Shows forkCategory commit.text (kept.map some)) {chain : List Commit}
    (listed : answers (.ancestors commit) = .ok chain) {nearest : Commit}
    (first : main.firstOn? chain = some nearest) :
    lookedUp answers (History.fork commit) entries =
      .ok (if main.contains commit then none else some (kept.getD nearest)) := by
  have asks : AsksOnly answers (findFork main commit) := findFork_asksOnly
  unfold History.fork
  rw [lookedUp_onMain isMain]
  cases isOn : main.contains commit with
  | true =>
    rw [forkWithin, isOn]
    rfl
  | false =>
    rw [forkWithin_off isOn]
    cases kept with
    | some fork => exact (getUnless_shown answers _ (shows_left answers (by decide) shown) rfl).1
    | none =>
      have missing := shows_left answers (by decide) shown
      refine (getUnless_missing missing nofun (asks _).2).1.trans ((asks _).1.trans ?_)
      exact computed_findFork.2 ⟨chain, nearest, listed, first, rfl⟩

/-- Of a commit whose name is none on the main branch the kept merge commit is given, or else the
first merge point on it. -/
private theorem found_merge {kept : Option (Option Commit)}
    (shown : entries.Shows mergeCategory commit.text kept) {points : List Commit}
    (listed : answers (.mergePoints commit) = .ok points) :
    lookedUp answers (History.merge commit) entries =
      .ok (if main.contains commit then none else kept.join.or (main.firstOn? points)) := by
  have asks : AsksOnly answers (findMerge main commit) := findMerge_asksOnly
  have still := shows_left answers (by decide) shown
  have asked (invalid : ∀ value, kept = some value → Option.isNone value = true) :
      lookedUp answers (Cache.getUnless Option.isNone mergeCategory commit.text
        (findMerge main commit)) (leftBy answers mainBranch entries) =
          .ok (main.firstOn? points) :=
    (getUnless_missing still invalid (asks _).2).1.trans <|
      (asks _).1.trans (computed_findMerge.2 ⟨points, listed, rfl⟩)
  unfold History.merge
  rw [lookedUp_onMain isMain]
  cases isOn : main.contains commit with
  | true =>
    rw [mergeWithin, isOn]
    rfl
  | false =>
    rw [mergeWithin_off isOn]
    rcases kept with _ | _ | merge
    · exact asked nofun
    · exact asked (by rintro value ⟨⟩; rfl)
    · exact (getUnless_shown answers _ still rfl).1

end

/-! ## What is kept under a name -/

namespace Entries.Outlives

variable {kept entries : Entries} (outlives : kept.Outlives entries)
include outlives

/-- Under a name there is a fork commit, or nothing. -/
private theorem shows_fork (name : CommitId) :
    ∃ fork : Option Commit, entries.Shows forkCategory name.text (fork.map some) := by
  cases held : entries forkCategory name.text with
  | none => exact ⟨none, held⟩
  | some bytes =>
    obtain ⟨fork, decoded⟩ := outlives.isFork held
    exact ⟨some fork, bytes, held, decoded⟩

private theorem shows_merge (name : CommitId) :
    ∃ merge : Option (Option Commit), entries.Shows mergeCategory name.text merge := by
  cases held : entries mergeCategory name.text with
  | none => exact ⟨none, held⟩
  | some bytes =>
    obtain ⟨merge, decoded⟩ := outlives.isMerge held
    exact ⟨some merge, bytes, held, decoded⟩

end Entries.Outlives

/-! ## Answers -/

namespace Surroundings

variable {σ : Type} {S : Surroundings σ}

/-- What a question gives in a state, if nothing is refused and the repository stands still. -/
def found {α : Type} (S : Surroundings σ) (question : History α) (state : σ) :
    Except HistoryError α :=
  lookedUp (S.answer state) question (S.entries state)

/-- In every state that a run comes to, whatever failed on the way, a name and the id of the commit
that it denotes are answered alike only so far: each is on the main branch if it is the text of an
id there, and otherwise the fork or merge commit is given that is kept under it, or else the one
that is found for the commit. So a name of a commit on the main branch is answered as if the commit
were off it, and the commit itself is found as its fork commit. What was given under a name is given
ever after, whatever the repository has to say of the name then. -/
theorem answers_by_name {state : σ}
    (reached : S.Reached (fun start => S.entries start = .empty) (fun _ _ => True) state)
    {main : MainBranch} (isMain : S.found mainBranch state = .ok main) {name : CommitId}
    {named : Commit} {chain points : List Commit}
    (denotes : Denotes (S.answer state) name named chain points) :
    (S.found (isOnMain name) state = .ok (main.contains name) ∧
      S.found (isOnMain named.id) state = .ok (main.contains named.id)) ∧
    (∀ nearest, main.firstOn? (named :: chain) = some nearest →
      (main.contains named.id = true → nearest = named) ∧
      ∃ kept keptId : Option Commit,
        (S.entries state).Shows forkCategory name.text (kept.map some) ∧
        (S.entries state).Shows forkCategory named.id.text (keptId.map some) ∧
        S.found (History.fork name) state =
          .ok (if main.contains name then none else some (kept.getD nearest)) ∧
        S.found (History.fork named.id) state =
          .ok (if main.contains named.id then none else some (keptId.getD nearest))) ∧
    (∃ kept keptId : Option (Option Commit),
      (S.entries state).Shows mergeCategory name.text kept ∧
      (S.entries state).Shows mergeCategory named.id.text keptId ∧
      S.found (History.merge name) state =
        .ok (if main.contains name then none else kept.join.or (main.firstOn? points)) ∧
      S.found (History.merge named.id) state =
        .ok (if main.contains named.id then none else keptId.join.or (main.firstOn? points))) ∧
    ∀ (last : σ) (later : MainBranch) (value : Commit) (again : Option Commit),
      S.result mainBranch last = .ok later →
        (S.result (History.fork name) state = .ok (some value) →
          S.Reached (· = S.after (History.fork name) state) (fun _ _ => True) last →
            S.result (History.fork name) last = .ok again →
              again = if later.contains name then none else some value) ∧
        (S.result (History.merge name) state = .ok (some value) →
          S.Reached (· = S.after (History.merge name) state) (fun _ _ => True) last →
            S.result (History.merge name) last = .ok again →
              again = if later.contains name then none else some value) := by
  have outlives : Entries.Outlives .empty (S.entries state) :=
    reached.outlives fun start clear => by rw [clear]; exact .empty
  refine ⟨⟨found_isOnMain isMain, found_isOnMain isMain⟩, fun nearest first => ⟨fun on => ?_, ?_⟩,
    ?_, fun last later value again isLater =>
      ⟨fun given after told => ?_, fun given after told => ?_⟩⟩
  · have itself : main.firstOn? (named :: chain) = some named := List.find?_cons_of_pos on
    exact Option.some.inj (first.symm.trans itself)
  · obtain ⟨kept, shown⟩ := outlives.shows_fork name
    obtain ⟨keptId, shownId⟩ := outlives.shows_fork named.id
    exact ⟨kept, keptId, shown, shownId, found_fork isMain shown denotes.listed first,
      found_fork isMain shownId denotes.listed_id first⟩
  · obtain ⟨kept, shown⟩ := outlives.shows_merge name
    obtain ⟨keptId, shownId⟩ := outlives.shows_merge named.id
    exact ⟨kept, keptId, shown, shownId, found_merge isMain shown denotes.merging,
      found_merge isMain shownId denotes.merging_id⟩
  · exact fork_stays outlives given after isLater told
  · exact merge_stays outlives given after isLater told

/-- A repository in which every name denotes `baseCommit`, which is on the main branch, below a
merge. -/
def tagged : LocaleWatch.Answers
  | .mainBranch => .ok [mergeCommit, baseCommit]
  | .ancestors _ => .ok [baseCommit]
  | .mergePoints _ => .ok [mergeCommit]
  | .freshCommits | .commitsAfter _ _ => .ok []
  | .lastCommit _ => .ok none
  | .mainHead => .ok (some mergeCommit.id)
  | .files _ | .filesIn _ | .filesBetween _ _ | .parents _ => .ok []
  | .fileExists _ => .ok false
  | .fetch | .pull => .ok ()

/-- A tag of `baseCommit`. -/
def tag : CommitId := ⟨"release", by decide⟩

/-- By its tag the commit is said to be off the main branch, to have left it at itself and to be
merged. -/
theorem answers_by_name_tagged :
    (settled tagged).found (isOnMain tag) ((), .empty) = .ok false ∧
      (settled tagged).found (isOnMain baseCommit.id) ((), .empty) = .ok true ∧
      (settled tagged).found (History.fork tag) ((), .empty) = .ok (some baseCommit) ∧
      (settled tagged).found (History.fork baseCommit.id) ((), .empty) = .ok none ∧
      (settled tagged).found (History.merge tag) ((), .empty) = .ok (some mergeCommit) ∧
      (settled tagged).found (History.merge baseCommit.id) ((), .empty) = .ok none := by
  have start : (settled tagged).Reached (fun start => (settled tagged).entries start = .empty)
      (fun _ _ => True) ((), .empty) := .start rfl
  have isMain : (settled tagged).found mainBranch ((), .empty) =
      .ok ⟨[mergeCommit, baseCommit]⟩ := rfl
  have denotes : Denotes tagged tag baseCommit [] [mergeCommit] := ⟨rfl, rfl, rfl, rfl⟩
  obtain ⟨⟨off, on⟩, forks, ⟨merge, mergeId, noMerge, -, ofTag, ofId⟩, -⟩ :=
    answers_by_name start isMain denotes
  obtain ⟨-, fork, forkId, noFork, -, forkOfTag, forkOfId⟩ := forks baseCommit rfl
  have noFork' : fork = none := by
    cases fork with
    | none => rfl
    | some fork => exact nomatch noFork
  have noMerge' : merge = none := by
    cases merge with
    | none => rfl
    | some merge => exact nomatch noMerge
  rw [noFork'] at forkOfTag
  rw [noMerge'] at ofTag
  exact ⟨off, on, forkOfTag, forkOfId, ofTag, ofId⟩

end Surroundings

end LocaleWatch
