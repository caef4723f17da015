import LocaleWatch.Proofs.Events
import LocaleWatch.Proofs.History.Coherence
import LocaleWatch.Proofs.History.Branches
import LocaleWatch.Proofs.Refresh.Phases

/-!
# What is kept of branches is kept for ever

No call drops an entry for a fork or a merge commit, and none writes over one that tells of a fork
or a merge. So what was once found under a commit's name is given under that name ever after,
whatever happens in between: calls that fail or are stopped, refreshes that fail anywhere, and a
repository that no longer means the same by the name.

## Main results

* `Surroundings.keeps_call` — every call, a refresh among them, leaves what is kept of branches.
* `Surroundings.Reached.outlives` — so does every run.
* `Surroundings.fork_stays`, `Surroundings.merge_stays` — what is given once is given ever after.
-/

namespace LocaleWatch

open History

/-- What is kept of branches can be read, what is kept as a fork commit is one, and the fork and
merge commits that were kept before are kept still. -/
structure Entries.Outlives (kept entries : Entries) : Prop where
  isFork : ∀ {key bytes}, entries forkCategory key = some bytes →
    ∃ fork, JsonForm.decode? (Option Commit) bytes = some (some fork)
  isMerge : ∀ {key bytes}, entries mergeCategory key = some bytes →
    ∃ merge : Option Commit, JsonForm.decode? (Option Commit) bytes = some merge
  forks : ∀ {key} {fork : Commit}, kept.Shows forkCategory key (some (some fork)) →
    entries.Shows forkCategory key (some (some fork))
  merges : ∀ {key} {merge : Commit}, kept.Shows mergeCategory key (some (some merge)) →
    entries.Shows mergeCategory key (some (some merge))

namespace Entries.Outlives

variable {kept entries other : Entries}

theorem empty : Outlives .empty .empty :=
  ⟨nofun, nofun, id, id⟩

/-- What is kept now will be kept. -/
theorem refl (outlives : kept.Outlives entries) : entries.Outlives entries :=
  ⟨outlives.isFork, outlives.isMerge, id, id⟩

/-- Entries that differ elsewhere only. -/
theorem congr (outlives : kept.Outlives entries)
    (forks : ∀ key, other forkCategory key = entries forkCategory key)
    (merges : ∀ key, other mergeCategory key = entries mergeCategory key) :
    kept.Outlives other where
  isFork held := outlives.isFork ((forks _).symm.trans held)
  isMerge held := outlives.isMerge ((merges _).symm.trans held)
  forks shown := (outlives.forks shown).congr (forks _)
  merges shown := (outlives.merges shown).congr (merges _)

/-- Where no fork or merge commit is kept, one may be written down, or that no merge was found. -/
theorem put (outlives : kept.Outlives entries) {category key : String} {value : Option Commit}
    (unkept : ∀ commit : Commit, ¬ kept.Shows category key (some (some commit)))
    (isFork : forkCategory = category → value ≠ none) :
    kept.Outlives (entries.put category key (Text.bytes (JsonForm.compact value))) where
  isFork held := by
    rcases Entries.put_cases held with ⟨here, -, rfl⟩ | held
    · obtain ⟨fork, rfl⟩ := Option.ne_none_iff_exists'.1 (isFork here)
      exact ⟨fork, JsonForm.decode_compact (some fork)⟩
    · exact outlives.isFork held
  isMerge held := by
    rcases Entries.put_cases held with ⟨-, -, rfl⟩ | held
    · exact ⟨value, JsonForm.decode_compact value⟩
    · exact outlives.isMerge held
  forks shown := (outlives.forks shown).congr <| Entries.put_of_ne fun same =>
    unkept _ (same.1 ▸ same.2 ▸ shown)
  merges shown := (outlives.merges shown).congr <| Entries.put_of_ne fun same =>
    unkept _ (same.1 ▸ same.2 ▸ shown)

end Entries.Outlives

namespace Surroundings

variable {σ : Type} {S : Surroundings σ} {kept : Entries}

/-- The states in which what is kept of branches has outlived. -/
abbrev Outliving (S : Surroundings σ) (kept : Entries) (state : σ) : Prop :=
  kept.Outlives (S.entries state)

/-! ## Single requests -/

private theorem outliving_query (query : Query) {state : σ} (holds : S.Outliving kept state) :
    S.Outliving kept (S.next (.query query) state) := by
  have same : S.entries (S.next (.query query) state) = S.entries state := S.entries_spared rfl
  unfold Outliving
  rwa [same]

private theorem outliving_undisturbed : S.Undisturbed (S.Outliving kept) := by
  intro request state quiet holds
  have same : S.entries (S.next request state) = S.entries state :=
    S.entries_spared (Tracking.Request.sparesEntries_of_isQuiet quiet)
  unfold Outliving
  rwa [same]

private theorem outliving_put {category key : String} {bytes : List UInt8} {state : σ}
    (holds : S.Outliving kept state)
    (put : kept.Outlives ((S.entries state).put category key bytes)) :
    S.Outliving kept (S.next (.write category key bytes) state) := by
  unfold Outliving
  rcases entries_write_cases category key bytes state with same | same
  · rwa [same]
  · rwa [same]

private theorem outliving_admits {category : String} (fork : forkCategory ≠ category)
    (merge : mergeCategory ≠ category) : S.Admits (S.Outliving kept) category :=
  fun holds => outliving_put holds <|
    holds.congr (fun _ => Entries.put_of_category fork) fun _ => Entries.put_of_category merge

private theorem outliving_removal {category key : String} {state : σ}
    (fork : forkCategory ≠ category) (merge : mergeCategory ≠ category)
    (holds : S.Outliving kept state) :
    S.Outliving kept (S.next (.delete category key) state) := by
  unfold Outliving
  rcases entries_delete_cases category key state with same | same
  · rw [same]
    exact holds.congr (fun _ => Entries.remove_of_category fork)
      fun _ => Entries.remove_of_category merge
  · rwa [same]

/-! ## Lookups -/

/-- Off the main branch a fork commit is given, and if one was kept before, it is that one. -/
theorem keeps_forkStays (main : MainBranch) (commit : CommitId) :
    Attempt.Keeps S.handler (S.Outliving kept) (forkWithin main commit)
      (OffMain main commit fun value => ∃ fork, value = some fork ∧
        ∀ before : Commit, kept.Shows forkCategory commit.text (some (some before)) →
          fork = before) := by
  unfold forkWithin
  cases isOn : main.contains commit with
  | true => exact .pure (.inl ⟨isOn, rfl⟩)
  | false =>
    refine Attempt.Keeps.mono ?_ fun value holds => .inr ⟨isOn, holds⟩
    refine keeps_get outliving_undisturbed (fun holds shown => ?_) (fun missing => ?_)
      fun value (found : ∃ fork, value = some fork ∧
        ∀ before : Commit, ¬ kept.Shows forkCategory commit.text (some (some before))) => ?_
    · obtain ⟨bytes, held, read⟩ := shown
      obtain ⟨fork, isFork⟩ := holds.isFork held
      refine ⟨fork, Option.some.inj (read.symm.trans isFork), fun before shown' => ?_⟩
      obtain ⟨bytes', held', isBefore⟩ := holds.forks shown'
      cases held.symm.trans held'
      exact Option.some.inj (Option.some.inj (isFork.symm.trans isBefore))
    · obtain ⟨state, holds, none⟩ := missing
      have unkept : ∀ before : Commit,
          ¬ kept.Shows forkCategory commit.text (some (some before)) := by
        intro before shown
        obtain ⟨bytes, held, -⟩ := holds.forks shown
        exact nomatch none.symm.trans held
      apply (keeps_asked outliving_undisturbed rfl).andThen
      intro ancestors
      cases main.firstOn? ancestors with
      | none => exact .throw
      | some fork =>
        exact .pure ⟨⟨fork, rfl, unkept⟩,
          fun holds => outliving_put holds (holds.put unkept fun _ => nofun)⟩
    · obtain ⟨fork, same, unkept⟩ := found
      exact ⟨fork, same, fun before shown => absurd shown (unkept before)⟩

/-- Off the main branch the merge commit that was kept before is given, if there was one. -/
theorem keeps_mergeStays (main : MainBranch) (commit : CommitId) :
    Attempt.Keeps S.handler (S.Outliving kept) (mergeWithin main commit)
      (OffMain main commit fun value =>
        ∀ before : Commit, kept.Shows mergeCategory commit.text (some (some before)) →
          value = some before) := by
  unfold mergeWithin
  cases isOn : main.contains commit with
  | true => exact .pure (.inl ⟨isOn, rfl⟩)
  | false =>
    refine Attempt.Keeps.mono ?_ fun value holds => .inr ⟨isOn, holds⟩
    refine keeps_getUnless outliving_undisturbed (fun holds shown _ before shown' => ?_)
      (fun missing => ?_) fun _ (unkept : ∀ before : Commit,
        ¬ kept.Shows mergeCategory commit.text (some (some before))) before shown =>
          absurd shown (unkept before)
    · have same := (holds.merges shown').unique shown
      cases same
      rfl
    · obtain ⟨state, found, holds, shown, none⟩ := missing
      have unkept : ∀ before : Commit,
          ¬ kept.Shows mergeCategory commit.text (some (some before)) := by
        intro before shown'
        exact nomatch none _ (shown.unique (holds.merges shown'))
      apply (keeps_asked outliving_undisturbed rfl).andThen
      intro points
      exact .pure ⟨unkept, fun holds => outliving_put holds (holds.put unkept fun same =>
        absurd same (by decide))⟩

/-- The question which files a merge brought in leaves what is kept of branches. -/
theorem keeps_mergeFilesStay (main : MainBranch) (merge : CommitId) :
    Attempt.Keeps S.handler (S.Outliving kept) (mergeFilesWithin main merge) fun _ => True :=
  keeps_mergeFilesLookup outliving_undisturbed
    (fun commit => (keeps_forkStays main commit).mono fun _ _ => trivial) merge

/-! ## Calls -/

private theorem outliving_sustains : S.Sustains (S.Outliving kept) fun _ => True := by
  have quiet : S.Undisturbed (S.Outliving kept) := outliving_undisturbed
  have main : Attempt.Keeps S.handler (S.Outliving kept)
      (Cache.get mainBranchCategory "" (Tracking.query .mainBranch)) fun _ => True :=
    keeps_lookup quiet (outliving_admits (by decide) (by decide)) (keeps_asked quiet rfl)
  exact
    { quiet
      main := main.andThen fun commits => .pure trivial
      fork := fun main commit _ => (keeps_forkStays main commit).mono fun _ _ => trivial
      merge := fun main commit _ => (keeps_mergeStays main commit).mono fun _ _ => trivial
      last := fun path =>
        keeps_lookup quiet (outliving_admits (by decide) (by decide)) (keeps_asked quiet rfl)
      commitsAfter := fun path start =>
        keeps_commitsLookup quiet (outliving_admits (by decide) (by decide)) path start
      forgetFile := fun path =>
        keeps_forgetFile (fun holds => outliving_removal (by decide) (by decide) holds)
          (fun holds => outliving_removal (by decide) (by decide) holds) path
      forgetMain :=
        (keeps_drop fun holds => outliving_removal (by decide) (by decide) holds).mapError }

private theorem outliving_refresh :
    Attempt.Keeps S.handler (S.Outliving kept) Refresh.run fun _ => True := by
  have sustains : S.Sustains (S.Outliving kept) fun _ => True := outliving_sustains
  have asked (query : Query) : Attempt.Keeps S.handler (S.Outliving kept) (Tracking.query query)
      fun _ => True :=
    (keeps_query fun holds => outliving_query query holds).mono fun _ _ => trivial
  have record (outcome : Refresh.Outcome) : Attempt.Keeps S.handler (S.Outliving kept)
      (Refresh.record outcome) fun _ => True :=
    (keeps_record sustains.quiet (outliving_admits (by decide) (by decide)) outcome).mono
      fun _ _ => trivial
  have settle (outcome : Refresh.Outcome) : Attempt.Keeps S.handler (S.Outliving kept)
      (Refresh.settle outcome) fun _ => True := by
    unfold Refresh.settle
    cases outcome.fresh.isEmpty with
    | true => exact record outcome
    | false => exact sustains.forgetMain.andThen fun _ => record outcome
  have gather : Attempt.Keeps S.handler (S.Outliving kept) Refresh.gather fun _ => True :=
    (asked .fetch).andThen fun _ => (asked .freshCommits).andThen fun fresh =>
      (keeps_changedLookup sustains.quiet sustains.main fun main commit isCurrent =>
        sustains.fork (main.extendedWith fresh) commit isCurrent).andThen fun _ => .pure trivial
  have prepare : Attempt.Keeps S.handler (S.Outliving kept) Refresh.prepare fun _ => True :=
    gather.andThen fun outcome =>
      (Attempt.Keeps.forM fun path _ => sustains.forgetFile path).andThen fun _ => .pure trivial
  rw [Refresh.run_eq]
  exact (prepare.andThen fun _ => (asked .pull).andThen fun _ => .pure trivial).andThen settle

/-- Every call leaves what is kept of branches. -/
theorem keeps_call (call : Call) :
    Attempt.Keeps S.handler (S.Outliving kept) call.attempt fun _ => True := by
  by_cases isRefresh : call = .refresh
  · subst isRefresh
    exact outliving_refresh
  · exact outliving_sustains.call call isRefresh

/-! ## Runs -/

/-- What is kept of branches outlives every run. -/
theorem Reached.outlives {initial : σ → Prop} {allowed : Call → σ → Prop} {state : σ}
    (start : ∀ state, initial state → kept.Outlives (S.entries state))
    (reached : S.Reached initial allowed state) : kept.Outlives (S.entries state) := by
  induction reached with
  | start starts => exact start _ starts
  | ended before call allows ih => exact (keeps_run (keeps_call call) ih).1
  | stopped before call count allows ih => exact keeps_stopped (keeps_call call) ih count

section

variable {commit : CommitId} {value : Commit} {again : Option Commit} {main : MainBranch}
  {allowed : Call → σ → Prop} {state start last : σ}

/-- What a lookup on the main branch gives once it gives ever after, if it keeps it. -/
private theorem given_stays {within : MainBranch → CommitId → History (Option Commit)}
    (category : String)
    (keeps : ∀ (kept : Entries) (main : MainBranch),
      Attempt.Keeps S.handler (S.Outliving kept) (within main commit)
        (OffMain main commit fun value => ∀ before : Commit,
          kept.Shows category commit.text (some (some before)) → value = some before))
    (shows : ∀ (main : MainBranch) (state : σ),
      S.result (within main commit) state = .ok (some value) →
        (S.entries (S.after (within main commit) state)).Shows category commit.text
          (some (some value)))
    (given : S.result (mainBranch >>= fun main => within main commit) state = .ok (some value))
    (same : S.after (mainBranch >>= fun main => within main commit) state = start)
    (outlives : Entries.Outlives .empty (S.entries start))
    (later : S.Reached (· = start) allowed last) (isMain : S.result mainBranch last = .ok main)
    (told : S.result (mainBranch >>= fun main => within main commit) last = .ok again) :
    again = if main.contains commit then none else some value := by
  have shown : (S.entries start).Shows category commit.text (some (some value)) := by
    obtain ⟨first, isFirst, found⟩ := result_bind_ok given
    rw [← same, after_bind, isFirst]
    exact shows first _ found
  have kept : S.Outliving (S.entries start) last :=
    later.outlives fun state same => by rw [same]; exact outlives.refl
  have kept' : S.Outliving (S.entries start) (S.after mainBranch last) :=
    (keeps_run outliving_sustains.main kept).1
  obtain ⟨other, isMain', told'⟩ := result_bind_ok told
  cases isMain.symm.trans isMain'
  have known := (keeps_run (keeps (S.entries start) main) kept').2 again told'
  cases isOn : main.contains commit with
  | true => exact known.of_on isOn
  | false => exact known.of_off isOn value shown

/-- The fork commit that is given of a commit is given ever after, except while the commit's name is
one on the main branch. -/
theorem fork_stays (outlives : Entries.Outlives .empty (S.entries state))
    (given : S.result (History.fork commit) state = .ok (some value))
    (later : S.Reached (· = S.after (History.fork commit) state) allowed last)
    (isMain : S.result mainBranch last = .ok main)
    (told : S.result (History.fork commit) last = .ok again) :
    again = if main.contains commit then none else some value := by
  refine given_stays forkCategory
    (fun kept main => (keeps_forkStays main commit).mono fun value known => ?_)
    (fun main state found => ?_) given rfl (keeps_run (keeps_call (.fork commit)) outlives).1 later
    isMain told
  · refine known.imp_right fun ⟨off, fork, same, isKept⟩ => ⟨off, fun before shown => ?_⟩
    rw [same, isKept before shown]
  · cases isOn : main.contains commit with
    | true =>
      unfold forkWithin at found
      rw [isOn] at found
      cases found
    | false =>
      rw [forkWithin_off isOn] at found ⊢
      exact shows_getUnless found

/-- So is a merge commit. -/
theorem merge_stays (outlives : Entries.Outlives .empty (S.entries state))
    (given : S.result (History.merge commit) state = .ok (some value))
    (later : S.Reached (· = S.after (History.merge commit) state) allowed last)
    (isMain : S.result mainBranch last = .ok main)
    (told : S.result (History.merge commit) last = .ok again) :
    again = if main.contains commit then none else some value := by
  refine given_stays mergeCategory (fun kept main => keeps_mergeStays main commit)
    (fun main state found => ?_) given rfl (keeps_run (keeps_call (.merge commit)) outlives).1 later
    isMain told
  cases isOn : main.contains commit with
  | true =>
    unfold mergeWithin at found
    rw [isOn] at found
    cases found
  | false =>
    rw [mergeWithin_off isOn] at found ⊢
    exact shows_getUnless found

end

end Surroundings

end LocaleWatch
