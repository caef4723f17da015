import LocaleWatch.Proofs.History.Branches
import LocaleWatch.Proofs.History.MainBranch
import LocaleWatch.Proofs.Refresh.Phases

/-!
# What lookups leave of what is kept

A lookup writes only where nothing valid is kept. So as long as nothing is dropped, the kept main
branch, last commits, fork commits and merge commits stay as they are byte for byte, and of the
start points of a file none is lost. That a commit has no merge is written down anew by every
lookup; while the repository answers as before, it is the same entry again.

## Main results

* `Surroundings.retains_upholds` — lookups retain what is kept.
* `Surroundings.Reached.retains` — so does every run of calls that drop nothing.
-/

namespace LocaleWatch

open History

/-- A commit is off the main branch, and the repository knows of no merge of it there. -/
def Unmerged (answers : Answers) (main : MainBranch) (commit : CommitId) : Prop :=
  main.contains commit = false ∧
    ∃ points, answers (.mergePoints commit) = .ok points ∧ main.firstOn? points = none

/-- The entry that says that a commit has no merge. -/
def History.unmergedBytes : List UInt8 :=
  Text.bytes (JsonForm.compact (none : Option Commit))

namespace Entries

/-- The main branch is kept, and of what was kept beforehand nothing valid is lost. -/
structure Retains (answers : Answers) (main : MainBranch) (kept entries : Entries) : Prop where
  mainKept : entries.Shows mainBranchCategory "" (some main.commits)
  single : ∀ {category key bytes}, category = lastCommitCategory ∨ category = forkCategory →
    kept category key = some bytes → entries category key = some bytes
  merged : ∀ {key bytes} {merge : Commit}, kept mergeCategory key = some bytes →
    JsonForm.decode? (Option Commit) bytes = some (some merge) →
      entries mergeCategory key = some bytes
  unmerged : ∀ {commit : CommitId}, Unmerged answers main commit →
    kept mergeCategory commit.text = some unmergedBytes →
      entries mergeCategory commit.text = some unmergedBytes
  starts : ∀ {key starts}, kept.Shows commitsAfterCategory key (some starts) →
    ∃ more, entries.Shows commitsAfterCategory key (some more) ∧
      ∀ start commits, CommitsByStart.get? starts start = some commits →
        CommitsByStart.get? more start = some commits

namespace Retains

variable {answers : Answers} {main : MainBranch} {kept entries later : Entries}

theorem refl (shown : entries.Shows mainBranchCategory "" (some main.commits)) :
    Retains answers main entries entries :=
  ⟨shown, fun _ held => held, fun held _ => held, fun _ held => held,
    fun {_ starts} shows => ⟨starts, shows, fun _ _ => id⟩⟩

theorem trans (first : Retains answers main kept entries)
    (second : Retains answers main entries later) : Retains answers main kept later where
  mainKept := second.mainKept
  single category held := second.single category (first.single category held)
  merged held decoded := second.merged (first.merged held decoded) decoded
  unmerged unmerged held := second.unmerged unmerged (first.unmerged unmerged held)
  starts shows := by
    obtain ⟨more, shows', grows⟩ := first.starts shows
    obtain ⟨most, shows'', grows'⟩ := second.starts shows'
    exact ⟨most, shows'',
      fun start commits found => grows' start commits (grows start commits found)⟩

/-- An entry other than the main branch may be written if that loses nothing. -/
theorem put (retains : Retains answers main kept entries) {category key : String}
    {bytes : List UInt8} (notMain : category ≠ mainBranchCategory)
    (single : category = lastCommitCategory ∨ category = forkCategory → kept category key = none)
    (merge : category = mergeCategory →
      (∀ merge : Commit, ¬ kept.Shows mergeCategory key (some (some merge))) ∧
        ∀ commit : CommitId, commit.text = key → Unmerged answers main commit →
          bytes = unmergedBytes)
    (starts : category = commitsAfterCategory → ∀ starts : CommitsByStart,
      kept.Shows commitsAfterCategory key (some starts) → ∃ more,
        JsonForm.decode? CommitsByStart bytes = some more ∧
          ∀ start commits, starts.get? start = some commits → more.get? start = some commits) :
    Retains answers main kept (entries.put category key bytes) where
  mainKept := retains.mainKept.congr (put_of_category notMain.symm)
  single {other name found} isSingle held := by
    have ne : ¬(other = category ∧ name = key) := by
      intro same
      obtain ⟨rfl, rfl⟩ := same
      rw [single isSingle] at held
      contradiction
    rw [put_of_ne ne]
    exact retains.single isSingle held
  merged {name found old} held decoded := by
    have ne : ¬(mergeCategory = category ∧ name = key) := by
      intro same
      obtain ⟨same, rfl⟩ := same
      exact (merge same.symm).1 old ⟨found, held, decoded⟩
    rw [put_of_ne ne]
    exact retains.merged held decoded
  unmerged {commit} unmerged held := by
    by_cases same : mergeCategory = category ∧ commit.text = key
    · obtain ⟨rfl, rfl⟩ := same
      rw [put_self, (merge rfl).2 commit rfl unmerged]
    · rw [put_of_ne same]
      exact retains.unmerged unmerged held
  starts {name old} shows := by
    by_cases same : commitsAfterCategory = category ∧ name = key
    · obtain ⟨rfl, rfl⟩ := same
      obtain ⟨more, decoded, grows⟩ := starts rfl old shows
      exact ⟨more, ⟨bytes, put_self, decoded⟩, grows⟩
    · obtain ⟨more, shows', grows⟩ := retains.starts shows
      exact ⟨more, shows'.congr (put_of_ne same), grows⟩

end Retains

end Entries

namespace Surroundings

variable {σ : Type} {S : Surroundings σ} {answers : LocaleWatch.Answers} {main : MainBranch}
  {kept : Entries}

/-- The states in which what was kept is retained. -/
abbrev Retaining (S : Surroundings σ) (answers : LocaleWatch.Answers) (main : MainBranch)
    (kept : Entries) (state : σ) : Prop :=
  kept.Retains answers main (S.entries state)

/-! ## Single requests -/

private theorem retaining_spared {request : Tracking.Request} {state : σ}
    (spares : request.sparesEntries = true) (holds : S.Retaining answers main kept state) :
    S.Retaining answers main kept (S.next request state) := by
  have same : S.entries (S.next request state) = S.entries state := S.entries_spared spares
  unfold Retaining
  rwa [same]

private theorem retaining_undisturbed : S.Undisturbed (S.Retaining answers main kept) :=
  fun quiet holds => retaining_spared (Tracking.Request.sparesEntries_of_isQuiet quiet) holds

private theorem retaining_put {category key : String} {bytes : List UInt8} {state : σ}
    (holds : S.Retaining answers main kept state)
    (put : kept.Retains answers main ((S.entries state).put category key bytes)) :
    S.Retaining answers main kept (S.next (.write category key bytes) state) := by
  unfold Retaining
  rcases entries_write_cases category key bytes state with same | same
  · rwa [same]
  · rwa [same]

/-! ## Lookups -/

/-- A lookup of a last commit or a fork commit writes where nothing was kept. -/
private theorem keeps_single {α : Type} [JsonForm α] {category key : String} {compute : History α}
    (isSingle : category = lastCommitCategory ∨ category = forkCategory)
    (keeps : Attempt.Keeps S.handler (S.Retaining answers main kept) compute fun _ => True) :
    Attempt.Keeps S.handler (S.Retaining answers main kept) (Cache.get category key compute)
      fun _ => True := by
  have notMain : category ≠ mainBranchCategory := by
    rcases isSingle with rfl | rfl <;> decide
  have notMerge : category ≠ mergeCategory := by
    rcases isSingle with rfl | rfl <;> decide
  have notAfter : category ≠ commitsAfterCategory := by
    rcases isSingle with rfl | rfl <;> decide
  refine keeps_get retaining_undisturbed (fun _ _ => trivial) (fun missing => ?_)
    fun _ (_ : True) => trivial
  obtain ⟨state, holds, none⟩ := missing
  have absent : kept category key = .none := by
    cases held : kept category key with
    | none => rfl
    | some bytes =>
      rw [holds.single isSingle held] at none
      contradiction
  apply keeps.mono
  intro value _
  exact ⟨trivial, fun holds => retaining_put holds (holds.put notMain (fun _ => absent)
    (fun same => absurd same notMerge) fun same => absurd same notAfter)⟩

private theorem keeps_mainKept :
    Attempt.Keeps S.handler (S.Retaining answers main kept) mainBranch (· = main) := by
  have lookup : Attempt.Keeps S.handler (S.Retaining answers main kept)
      (Cache.get mainBranchCategory "" (Tracking.query .mainBranch)) (· = main.commits) := by
    refine keeps_get retaining_undisturbed (fun holds shows => ?_) (fun missing => ?_)
      fun _ found => found
    · exact Option.some.inj (shows.unique holds.mainKept)
    · obtain ⟨state, holds, none⟩ := missing
      obtain ⟨bytes, held, -⟩ := holds.mainKept
      rw [none] at held
      contradiction
  apply lookup.bind
  intro commits same
  exact .pure (congrArg MainBranch.mk same)

private theorem keeps_forkKept (main' : MainBranch) (commit : CommitId) :
    Attempt.Keeps S.handler (S.Retaining answers main kept) (forkWithin main' commit)
      fun _ => True := by
  unfold forkWithin
  split
  · exact .pure trivial
  · apply keeps_single (.inr rfl)
    apply (keeps_asked retaining_undisturbed rfl).andThen
    intro ancestors
    split
    · exact .pure trivial
    · exact .throw

section

variable (fixed : ∀ state query, S.answer state query = answers query)
include fixed

/-- A lookup of a merge commit on the kept main branch. That there is none is only said of a commit
that is on the main branch or not merged. -/
theorem keeps_mergeKept (commit : CommitId) :
    Attempt.Keeps S.handler (S.Retaining answers main kept) (mergeWithin main commit)
      fun value => main.contains commit = false → value = none → Unmerged answers main commit := by
  unfold mergeWithin
  cases on : main.contains commit with
  | true => exact .pure nofun
  | false =>
    have right (value : Option Commit) (computed : ∃ points,
        answers (.mergePoints commit) = .ok points ∧ value = main.firstOn? points) :
        false = false → value = none → Unmerged answers main commit := by
      obtain ⟨points, told, first⟩ := computed
      intro _ none
      exact ⟨on, points, told, first.symm.trans none⟩
    refine keeps_getUnless retaining_undisturbed (fun {_ value} _ _ valid _ none => ?_)
      (fun missing => ?_) right
    · subst none
      contradiction
    · obtain ⟨state, found, holds, shows, invalid⟩ := missing
      have unkept : ∀ merge : Commit,
          ¬ kept.Shows mergeCategory commit.text (some (some merge)) := by
        intro merge shown
        obtain ⟨bytes, held, decoded⟩ := shown
        have here : (S.entries state).Shows mergeCategory commit.text (some (some merge)) :=
          ⟨bytes, holds.merged held decoded, decoded⟩
        exact nomatch invalid _ (shows.unique here)
      apply (keeps_question retaining_undisturbed rfl).bind
      intro points known
      obtain ⟨other, -, answer⟩ := known
      have told : answers (.mergePoints commit) = .ok points := (fixed _ _).symm.trans answer
      refine .pure ⟨⟨points, told, rfl⟩, fun holds => retaining_put holds ?_⟩
      refine holds.put (by decide) (fun same => absurd same (by decide)) (fun _ => ⟨unkept, ?_⟩)
        (fun same => absurd same (by decide))
      intro other same unmerged
      obtain ⟨-, points', told', first⟩ := unmerged
      cases CommitId.text_injective same
      cases told.symm.trans told'
      rw [first]
      rfl

omit fixed in
private theorem keeps_afterKept (path : Path) (start : CommitId) :
    Attempt.Keeps S.handler (S.Retaining answers main kept) (commitsAfter path start)
      fun _ => True := by
  refine keeps_laterLookup retaining_undisturbed (fun _ _ _ => trivial) (fun _ _ => trivial) ?_
  intro state before found commits holds shows missing _ holds'
  refine retaining_put holds' (holds'.put (by decide) (fun same => absurd same (by decide))
    (fun same => absurd same (by decide)) fun _ starts shown => ?_)
  obtain ⟨more, shows', grows⟩ := holds.starts shown
  cases shows.unique shows'
  refine ⟨_, JsonForm.decode_compact _, fun other commits' kept => ?_⟩
  by_cases same : other = start
  · subst same
    rw [show ((some more).getD .empty) = more from rfl, grows other commits' kept] at missing
    contradiction
  · exact (CommitsByStart.get?_insert_of_ne _ same _).trans (grows other commits' kept)

/-- Lookups retain what is kept. -/
theorem retains_upholds : S.Upholds (S.Retaining answers main kept) (· = main) where
  quiet := retaining_undisturbed
  main := keeps_mainKept
  fork main' commit _ := keeps_forkKept main' commit
  merge main' commit same := by
    subst same
    exact (keeps_mergeKept fixed commit).mono fun _ _ => trivial
  last path := keeps_single (.inl rfl) (keeps_asked retaining_undisturbed rfl)
  commitsAfter path start := keeps_afterKept path start

/-! ## Calls that drop nothing -/

/-- A refresh that finds nothing fresh drops nothing. -/
private theorem keeps_idleRefresh (nothing : answers .freshCommits = .ok []) :
    Attempt.Keeps S.handler (S.Retaining answers main kept) Refresh.run fun _ => True := by
  have asked (query : Query) : Attempt.Keeps S.handler (S.Retaining answers main kept)
      (Tracking.query query) fun value => answers query = .ok value := by
    apply (keeps_query fun holds => retaining_spared rfl holds).mono
    intro value known
    obtain ⟨state, -, answer⟩ := known
    exact (fixed state query).symm.trans answer
  have admits : S.Admits (S.Retaining answers main kept) Refresh.stateCategory :=
    fun holds => retaining_put holds (holds.put (by decide)
      (fun same => absurd same (by decide)) (fun same => absurd same (by decide))
      fun same => absurd same (by decide))
  have gather : Attempt.Keeps S.handler (S.Retaining answers main kept) Refresh.gather
      fun outcome => outcome = ⟨[], []⟩ := by
    apply (asked .fetch).bind
    intro _ _
    apply (asked .freshCommits).bind
    intro fresh told
    cases nothing.symm.trans told
    exact .pure rfl
  have prepare : Attempt.Keeps S.handler (S.Retaining answers main kept) Refresh.prepare
      fun outcome => outcome = ⟨[], []⟩ := by
    apply gather.bind
    intro outcome same
    subst same
    exact .pure rfl
  have advance : Attempt.Keeps S.handler (S.Retaining answers main kept) Refresh.advance
      fun outcome => outcome = ⟨[], []⟩ :=
    prepare.bind fun outcome same => (asked .pull).bind fun _ _ => .pure same
  rw [Refresh.run_eq]
  apply advance.bind
  intro outcome same
  subst same
  exact (keeps_record retaining_undisturbed admits _).mono fun _ _ => trivial

/-- What is kept is retained by every run of calls that drop nothing. -/
theorem Reached.retains {start state : σ}
    (shown : (S.entries start).Shows mainBranchCategory "" (some main.commits))
    (reached : S.Reached (· = start) (fun call _ => call.drops = false ∨
      (call = .refresh ∧ answers .freshCommits = .ok [])) state) :
    (S.entries start).Retains answers main (S.entries state) := by
  have keeps (call : Call) (allows : call.drops = false ∨
      (call = .refresh ∧ answers .freshCommits = .ok [])) :
      Attempt.Keeps S.handler (S.Retaining answers main (S.entries start)) call.attempt
        fun _ => True := by
    rcases allows with plain | ⟨rfl, nothing⟩
    · exact (retains_upholds fixed).call call plain
    · exact keeps_idleRefresh fixed nothing
  induction reached with
  | start starts =>
    subst starts
    exact .refl shown
  | ended before call allows ih => exact (keeps_run (keeps call allows) ih).1
  | stopped before call count allows ih => exact keeps_stopped (keeps call allows) ih count

end

end Surroundings

end LocaleWatch
