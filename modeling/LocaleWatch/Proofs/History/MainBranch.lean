import LocaleWatch.Proofs.Calls

/-!
# The kept main branch

While the repository's main branch stays as it is, a question for it gives what was kept
beforehand, or else what the repository gives, and writes down nothing but the latter.

## Main results

* `Surroundings.keeps_mainBranch` — what the main branch is given as.
* `Surroundings.keeps_mainHeld` — where nothing was kept beforehand, it is the repository's.
-/

namespace LocaleWatch

open History

/-- The commits that a question for the main branch gives, from what was kept beforehand and
what the repository answers. -/
def SeenMain (kept : Entries) (answers : Answers) (commits : List Commit) : Prop :=
  kept.Shows mainBranchCategory "" (some commits) ∨
    (kept mainBranchCategory "" = none ∧ answers .mainBranch = .ok commits)

/-- One list of commits is seen. -/
theorem SeenMain.unique {kept : Entries} {answers : Answers} {first second : List Commit}
    (seen : SeenMain kept answers first) (again : SeenMain kept answers second) :
    first = second := by
  rcases seen with shown | ⟨absent, told⟩
  · rcases again with shown' | ⟨absent', -⟩
    · cases shown.unique shown'
      rfl
    · obtain ⟨bytes, held, -⟩ := shown
      rw [absent'] at held
      contradiction
  · rcases again with ⟨bytes, held, -⟩ | ⟨-, told'⟩
    · rw [absent] at held
      contradiction
    · cases told.symm.trans told'
      rfl

/-- Where nothing was kept beforehand, what is seen is the repository's. -/
theorem SeenMain.told {answers : Answers} {commits : List Commit}
    (seen : SeenMain .empty answers commits) : answers .mainBranch = .ok commits := by
  rcases seen with ⟨bytes, held, -⟩ | ⟨-, told⟩
  · contradiction
  · exact told

/-- The entries' main branch is the one kept beforehand, or the repository's if none was. -/
structure MainSeen (kept : Entries) (answers : Answers) (entries : Entries) : Prop where
  held : ∀ {bytes}, entries mainBranchCategory "" = some bytes →
    kept mainBranchCategory "" = some bytes ∨ (kept mainBranchCategory "" = none ∧
      ∃ commits, bytes = Text.bytes (JsonForm.compact commits) ∧
        answers .mainBranch = .ok commits)
  absent : entries mainBranchCategory "" = none → kept mainBranchCategory "" = none

namespace MainSeen

variable {kept entries : Entries} {answers : Answers}

theorem shown (seen : MainSeen kept answers entries) {commits : List Commit}
    (shows : entries.Shows mainBranchCategory "" (some commits)) :
    SeenMain kept answers commits := by
  obtain ⟨bytes, held, read⟩ := shows
  rcases seen.held held with before | ⟨none, other, rfl, told⟩
  · exact .inl ⟨bytes, before, read⟩
  · rw [JsonForm.decode_compact] at read
    cases read
    exact .inr ⟨none, told⟩

theorem refl : MainSeen kept answers kept := ⟨.inl, id⟩

theorem congr {other : Entries} (seen : MainSeen kept answers entries)
    (same : other mainBranchCategory "" = entries mainBranchCategory "") :
    MainSeen kept answers other :=
  ⟨fun held => seen.held (same.symm.trans held), fun none => seen.absent (same.symm.trans none)⟩

theorem put {commits : List Commit} (absent : kept mainBranchCategory "" = none)
    (told : answers .mainBranch = .ok commits) :
    MainSeen kept answers
      (entries.put mainBranchCategory "" (Text.bytes (JsonForm.compact commits))) where
  held held := by
    rw [Entries.put_self] at held
    cases held
    exact .inr ⟨absent, commits, rfl, told⟩
  absent none := absurd (Entries.put_self.symm.trans none) nofun

/-! ### Where nothing was kept beforehand -/

theorem of_absent (absent : entries mainBranchCategory "" = none) :
    MainSeen .empty answers entries where
  held held := nomatch absent.symm.trans held
  absent _ := rfl

theorem remove (seen : MainSeen .empty answers entries) (category key : String) :
    MainSeen .empty answers (entries.remove category key) where
  held held := seen.held (Entries.of_remove held)
  absent _ := rfl

/-- What is right for a main branch is right for the same main branch. -/
theorem moved {answers' : Answers} (seen : MainSeen .empty answers entries)
    (same : ∀ main, answers .mainBranch = .ok main → answers' .mainBranch = .ok main) :
    MainSeen .empty answers' entries where
  held held := by
    rcases seen.held held with before | ⟨none, commits, written, told⟩
    · contradiction
    · exact .inr ⟨none, commits, written, same commits told⟩
  absent _ := rfl

end MainSeen

namespace Surroundings

variable {σ : Type} {S : Surroundings σ} {orders concern : Query → Prop}
  {answers : LocaleWatch.Answers} {property : Entries → Prop} {kept : Entries}

/-- The main branch is given as it was kept beforehand, or as the repository gives it. -/
theorem keeps_mainBranch (steady : S.SteadyBut orders concern)
    (onlyOrders : ∀ query, orders query → query.isOrder = true) (concerned : concern .mainBranch)
    (seen : ∀ entries, property entries → MainSeen kept answers entries)
    (put : ∀ entries commits, kept mainBranchCategory "" = none →
      answers .mainBranch = .ok commits → property entries →
        property (entries.put mainBranchCategory "" (Text.bytes (JsonForm.compact commits)))) :
    Attempt.Keeps S.handler (S.Holding concern answers property) History.mainBranch fun main =>
      SeenMain kept answers main.commits := by
  have quiet : S.Undisturbed (S.Holding concern answers property) :=
    holding_undisturbed steady onlyOrders
  have lookup : Attempt.Keeps S.handler (S.Holding concern answers property)
      (Cache.get mainBranchCategory "" (Tracking.query .mainBranch))
      fun commits => SeenMain kept answers commits := by
    refine keeps_get quiet (fun holds shown => (seen _ holds.entries).shown shown)
      (fun missing => ?_) fun _ found => found
    obtain ⟨state, holds, none⟩ := missing
    have absent : kept mainBranchCategory "" = .none := (seen _ holds.entries).absent none
    apply (keeps_question quiet rfl).mono
    intro commits known
    obtain ⟨other, holds', answer⟩ := known
    have told : answers .mainBranch = .ok commits :=
      (holds'.answers .mainBranch concerned).symm.trans answer
    exact ⟨.inr ⟨absent, told⟩, fun holds => holds.write steady (put _ commits absent told)⟩
  exact lookup.bind fun commits found => .pure found

/-- The repository answers the queries of concern in one way, the kept main branch is its own, and
the entries have a property. -/
abbrev MainHolds (S : Surroundings σ) (concern : Query → Prop) (answers : LocaleWatch.Answers)
    (property : Entries → Prop) : σ → Prop :=
  S.Holding concern answers fun entries => MainSeen .empty answers entries ∧ property entries

section

variable {property : Entries → Prop} (steady : S.SteadyBut orders concern)
include steady

theorem mainHolds_put {other key : String} {bytes : List UInt8} {state : σ}
    (main : mainBranchCategory ≠ other)
    (kept : property (S.entries state) → property ((S.entries state).put other key bytes))
    (holds : S.MainHolds concern answers property state) :
    S.MainHolds concern answers property (S.next (.write other key bytes) state) :=
  holds.write steady fun both =>
    ⟨both.1.congr (Entries.put_of_category main), kept both.2⟩

theorem keeps_mainHeld (onlyOrders : ∀ query, orders query → query.isOrder = true)
    (concerned : concern .mainBranch)
    (kept : ∀ entries bytes, property entries →
      property (entries.put mainBranchCategory "" bytes)) :
    Attempt.Keeps S.handler (S.MainHolds concern answers property) mainBranch fun main =>
      answers .mainBranch = .ok main.commits := by
  have seen : Attempt.Keeps S.handler (S.MainHolds concern answers property) mainBranch
      fun main => SeenMain .empty answers main.commits :=
    keeps_mainBranch steady onlyOrders concerned (fun _ both => both.1)
      fun _ _ _ told both => ⟨.put rfl told, kept _ _ both.2⟩
  exact seen.mono fun _ seen => seen.told

end

end Surroundings

end LocaleWatch
