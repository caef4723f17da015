import LocaleWatch.Proofs.Calls

/-!
# What lookups of fork and merge commits find

A commit on the main branch has neither a fork commit nor a merge commit, and nothing is looked
up for it. For a commit off the main branch an entry that is kept decides, unless it says that
no merge was found; without one the repository's ancestors or merge points decide, and what they
lead to is kept. So a lookup is known once it is known what entries of the kept kind show, and
that the kind survives the new entry.

## Main results

* `Surroundings.keeps_forkFound`, `Surroundings.keeps_mergeFound` — the rules of the two lookups.
* `Surroundings.keeps_forkSince` — the first rule among fork commits kept some time ago.
-/

namespace LocaleWatch

open History

/-- The first commit on an extended main branch is the first on the main branch itself if it is
there. -/
theorem MainBranch.firstOn?_of_extendedWith {main : MainBranch} {fresh commits : List Commit}
    {first : Commit} (found : (main.extendedWith fresh).firstOn? commits = some first)
    (on : main.contains first.id = true) : main.firstOn? commits = some first := by
  unfold MainBranch.firstOn? at found ⊢
  induction commits with
  | nil => contradiction
  | cons commit more ih =>
    rw [List.find?_cons] at found ⊢
    cases isOn : main.contains commit.id with
    | true =>
      rw [MainBranch.contains_extendedWith, isOn, Bool.or_true] at found
      exact found
    | false =>
      cases isFresh : (main.extendedWith fresh).contains commit.id with
      | true =>
        rw [isFresh] at found
        cases found
        rw [isOn] at on
        contradiction
      | false =>
        rw [isFresh] at found
        exact ih found

theorem CommitId.text_injective {first second : CommitId} (same : first.text = second.text) :
    first = second := by
  cases first
  cases second
  cases same
  rfl

/-- What is said of a commit on a main branch: nothing is found on it, and off it something that
is `found`. -/
def OffMain (main : MainBranch) (commit : CommitId) (found : Option Commit → Prop)
    (value : Option Commit) : Prop :=
  (main.contains commit = true ∧ value = none) ∨ (main.contains commit = false ∧ found value)

theorem OffMain.of_on {main : MainBranch} {commit : CommitId} {found : Option Commit → Prop}
    {value : Option Commit} (known : OffMain main commit found value)
    (on : main.contains commit = true) : value = none := by
  rcases known with ⟨-, none⟩ | ⟨off, -⟩
  · exact none
  · rw [on] at off
    contradiction

theorem OffMain.of_off {main : MainBranch} {commit : CommitId} {found : Option Commit → Prop}
    {value : Option Commit} (known : OffMain main commit found value)
    (off : main.contains commit = false) : found value := by
  rcases known with ⟨on, -⟩ | ⟨-, holds⟩
  · rw [off] at on
    contradiction
  · exact holds

/-- A fork commit of a commit: the first of its ancestors that is on a main branch. -/
def ForkOn (answers : Answers) (main : MainBranch) (commit : CommitId) (fork : Commit) : Prop :=
  ∃ ancestors, answers (.ancestors commit) = .ok ancestors ∧ main.firstOn? ancestors = some fork

/-- A commit has one fork commit on a main branch. -/
theorem ForkOn.unique {answers : Answers} {main : MainBranch} {commit : CommitId}
    {first second : Commit} (isFork : ForkOn answers main commit first)
    (again : ForkOn answers main commit second) : first = second := by
  obtain ⟨ancestors, told, found⟩ := isFork
  obtain ⟨ancestors', told', found'⟩ := again
  cases told.symm.trans told'
  exact Option.some.inj (found.symm.trans found')

/-! ## Fork commits that were kept some time ago -/

/-- Each fork commit that is kept is one on an earlier main branch. Since that time the commits
`since` were put on top of it, `fresh` among them, which are not on the main branch yet. What is
not kept at all is not behind. -/
structure ForksSince (answers : Answers) (fresh : List Commit) (since : CommitId → List Commit)
    (entries : Entries) : Prop where
  held : ∀ {commit : CommitId} {bytes}, entries forkCategory commit.text = some bytes →
    ∃ main older fork, answers .mainBranch = .ok main ∧ fresh ++ main = since commit ++ older ∧
      ForkOn answers ⟨older⟩ commit fork ∧
        JsonForm.decode? (Option Commit) bytes = some (some fork)
  absent : ∀ {commit : CommitId}, entries forkCategory commit.text = none → since commit = []

/-- A value that was the fork commit of a commit before `since` was put on top of a main branch. -/
def ForkBefore (answers : Answers) (main : List Commit) (since : List Commit) (commit : CommitId)
    (value : Option Commit) : Prop :=
  ∃ older fork, main = since ++ older ∧ ForkOn answers ⟨older⟩ commit fork ∧ value = some fork

namespace ForksSince

variable {answers : Answers} {fresh main : List Commit} {since : CommitId → List Commit}
  {entries : Entries}

theorem empty : ForksSince answers fresh (fun _ => []) .empty :=
  ⟨nofun, fun _ => rfl⟩

theorem shown (forks : ForksSince answers fresh since entries)
    (told : answers .mainBranch = .ok main) {commit : CommitId} {value : Option Commit}
    (shows : entries.Shows forkCategory commit.text (some value)) :
    ForkBefore answers (fresh ++ main) (since commit) commit value := by
  obtain ⟨bytes, held, read⟩ := shows
  obtain ⟨main', older, fork, told', split, isFork, decoded⟩ := forks.held held
  cases told.symm.trans told'
  have same : value = some fork := Option.some.inj (read.symm.trans decoded)
  exact ⟨older, fork, split, isFork, same⟩

/-- Entries that differ elsewhere only. -/
theorem congr {other : Entries} (forks : ForksSince answers fresh since entries)
    (same : ∀ key, other forkCategory key = entries forkCategory key) :
    ForksSince answers fresh since other where
  held held := forks.held ((same _).symm.trans held)
  absent none := forks.absent ((same _).symm.trans none)

/-- A fork commit on the main branch as it is going to be. -/
theorem put (forks : ForksSince answers fresh since entries)
    (told : answers .mainBranch = .ok main) {commit : CommitId} {fork : Commit}
    (new : since commit = []) (isFork : ForkOn answers ⟨fresh ++ main⟩ commit fork) :
    ForksSince answers fresh since
      (entries.put forkCategory commit.text (Text.bytes (JsonForm.compact (some fork)))) where
  held {other bytes} held := by
    rcases Entries.put_cases held with ⟨-, same, rfl⟩ | held
    · cases CommitId.text_injective same
      refine ⟨main, fresh ++ main, fork, told, ?_, isFork, JsonForm.decode_compact (some fork)⟩
      rw [new, List.nil_append]
    · exact forks.held held
  absent none := forks.absent (Entries.absent_of_put none)

end ForksSince

/-! ## Lookups -/

namespace Surroundings

variable {σ : Type} {S : Surroundings σ} {orders concern : Query → Prop}
  {answers : LocaleWatch.Answers} {property : Entries → Prop} {main : MainBranch}
  {commit : CommitId} {found : Option Commit → Prop}

variable (steady : S.SteadyBut orders concern)
  (onlyOrders : ∀ query, orders query → query.isOrder = true)
include steady onlyOrders

/-- The answer to a question of concern is the one that is held. -/
theorem keeps_answer {query : Query} (question : query.isOrder = false)
    (concerned : concern query) :
    Attempt.Keeps S.handler (S.Holding concern answers property) (Tracking.query query)
      fun value => answers query = .ok value := by
  apply (keeps_question (holding_undisturbed steady onlyOrders) question).mono
  intro value known
  obtain ⟨state, holds, told⟩ := known
  exact (holds.answers query concerned).symm.trans told

/-- A lookup of a fork commit. What entries show is `found`; if one was `missing`, then so is the
first ancestor on the main branch, and the kind survives that it is kept. -/
theorem keeps_forkFound (concerned : concern (.ancestors commit)) {missing : Prop}
    (shown : ∀ {entries value}, property entries →
      entries.Shows forkCategory commit.text (some value) → found value)
    (absent : ∀ {entries}, property entries → entries forkCategory commit.text = none → missing)
    (first : ∀ {fork}, main.contains commit = false → missing → ForkOn answers main commit fork →
      found (some fork) ∧ ∀ {entries}, property entries → property
        (entries.put forkCategory commit.text (Text.bytes (JsonForm.compact (some fork))))) :
    Attempt.Keeps S.handler (S.Holding concern answers property)
      (History.forkWithin main commit) (OffMain main commit found) := by
  have quiet : S.Undisturbed (S.Holding concern answers property) :=
    holding_undisturbed steady onlyOrders
  unfold History.forkWithin
  cases isOn : main.contains commit with
  | true => exact .pure (.inl ⟨isOn, rfl⟩)
  | false =>
    refine Attempt.Keeps.mono ?_ fun value holds => .inr ⟨isOn, holds⟩
    refine keeps_get quiet (fun holds shows => shown holds.entries shows)
      (fun unknown => ?_) fun _ seen => seen
    obtain ⟨state, holds, none⟩ := unknown
    apply (keeps_answer steady onlyOrders rfl concerned).bind
    intro ancestors told
    cases isFirst : main.firstOn? ancestors with
    | none => exact .throw
    | some fork =>
      have known := first isOn (absent holds.entries none) ⟨ancestors, told, isFirst⟩
      exact .pure ⟨known.1, fun holds => holds.write steady known.2⟩

/-- Where fork commits were kept some time ago, a lookup on the main branch as it is going to be
gives one that was right then. -/
theorem keeps_forkSince (fresh : List Commit) (since : CommitId → List Commit)
    (concerned : concern (.ancestors commit)) {commits : List Commit}
    (told : answers .mainBranch = .ok commits)
    (forks : ∀ {entries}, property entries → ForksSince answers fresh since entries)
    (put : ∀ {entries bytes}, property entries →
      ForksSince answers fresh since (entries.put forkCategory commit.text bytes) →
        property (entries.put forkCategory commit.text bytes)) :
    Attempt.Keeps S.handler (S.Holding concern answers property)
      (History.forkWithin (MainBranch.extendedWith ⟨commits⟩ fresh) commit)
      (OffMain (MainBranch.extendedWith ⟨commits⟩ fresh) commit
        (ForkBefore answers (fresh ++ commits) (since commit) commit)) := by
  refine keeps_forkFound steady onlyOrders concerned
    (fun holds shown => (forks holds).shown told shown)
    (fun holds none => (forks holds).absent none) ?_
  intro fork _ new isFork
  refine ⟨⟨fresh ++ commits, fork, ?_, isFork, rfl⟩, fun holds => ?_⟩
  · rw [new, List.nil_append]
  · exact put holds ((forks holds).put told new isFork)

/-- A lookup of a merge commit. A merge that entries show is `found`, and so is the first merge
point on the main branch, if there is one, and the kind survives that this is kept. -/
theorem keeps_mergeFound (concerned : concern (.mergePoints commit))
    (shown : ∀ {entries merge}, property entries →
      entries.Shows mergeCategory commit.text (some (some merge)) → found (some merge))
    (first : ∀ {points}, answers (.mergePoints commit) = .ok points →
      found (main.firstOn? points) ∧ ∀ {entries}, property entries → property
        (entries.put mergeCategory commit.text
          (Text.bytes (JsonForm.compact (main.firstOn? points))))) :
    Attempt.Keeps S.handler (S.Holding concern answers property)
      (History.mergeWithin main commit) (OffMain main commit found) := by
  have quiet : S.Undisturbed (S.Holding concern answers property) :=
    holding_undisturbed steady onlyOrders
  unfold History.mergeWithin
  cases isOn : main.contains commit with
  | true => exact .pure (.inl ⟨isOn, rfl⟩)
  | false =>
    refine Attempt.Keeps.mono ?_ fun value holds => .inr ⟨isOn, holds⟩
    refine keeps_getUnless quiet (fun {state value} holds shows valid => ?_) (fun _ => ?_)
      fun _ seen => seen
    · cases value with
      | none => contradiction
      | some merge => exact shown holds.entries shows
    · apply (keeps_answer steady onlyOrders rfl concerned).bind
      intro points told
      have known := first told
      exact .pure ⟨known.1, fun holds => holds.write steady known.2⟩

end Surroundings

end LocaleWatch
