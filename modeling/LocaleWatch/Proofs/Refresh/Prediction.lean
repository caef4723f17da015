import LocaleWatch.Proofs.History.Attribution
import LocaleWatch.Proofs.History.Lookups
import LocaleWatch.Proofs.Refresh.Effect
import LocaleWatch.Proofs.Refresh.Gathering

/-!
# What a refresh predicts of merges

A refresh finds out what the fresh merges bring in before it pulls. It takes the main branch as it
is going to be: the known one with the fresh commits in front. Whoever asks after the pull is told
the main branch as it is. The two are one list, so that the parents on it are the same ones, and a
fork commit that is looked up then is found where the refresh kept it, or found anew from the same
ancestors.

The argument goes by what a merge brings in, which is one list of files once it is known what was
kept of fork commits before the refresh and which main branch is looked at. Both the refresh and
whoever asks later give that list.

## Main results

* `Refresh.gather_eq` — a refresh finds the files of each commit and then takes them together.
* `Surroundings.keeps_seenFiles` — what a merge is said to bring in, whoever asks.
* `Surroundings.prediction_holds` — what a refresh attributes to a merge is what is given for it
  after the refresh.
-/

namespace LocaleWatch

open Attempt History

/-! ## Findings -/

namespace Refresh

/-- What a refresh finds out before it takes the files together. -/
structure Findings where
  fresh : List Commit
  listed : List (CommitId × List String)
  brought : List (CommitId × List String)
  deriving DecidableEq

/-- The commits that list no file of their own. -/
def merges (listed : List (CommitId × List String)) : List CommitId :=
  (listed.filter (·.2.isEmpty)).map (·.1)

/-- What the findings come to. -/
def Findings.outcome (findings : Findings) : Outcome :=
  ⟨findings.fresh,
    Text.sortedDistinct (findings.listed.flatMap (·.2) ++ findings.brought.flatMap (·.2))⟩

/-- The files that each of some merges brings in. -/
def broughtIn (fresh : List Commit) (merges : List CommitId) :
    History (List (CommitId × List String)) := do
  if merges.isEmpty then return []
  let main := (← History.mainBranch).extendedWith fresh
  merges.mapM fun merge => do return (merge, ← History.mergeFilesWithin main merge)

/-- What is found out about fresh commits. -/
def findFrom (fresh : List Commit) : History Findings := do
  let listed ← listings fresh
  let brought ← broughtIn fresh (merges listed)
  return ⟨fresh, listed, brought⟩

/-- What a refresh finds out, commit by commit. -/
def find : History Findings := do
  let () ← Tracking.query .fetch
  findFrom (← Tracking.query .freshCommits)

/-- To look at some items is to keep each item beside what was found and to forget the items. -/
private theorem mapM_beside {α β : Type} (f : α → History β) (items : List α) :
    items.mapM f =
      items.mapM (fun item => do return (item, ← f item)) >>= fun found =>
        pure (found.map Prod.snd) := by
  induction items with
  | nil => simp
  | cons item more ih => simp [List.mapM_cons, ih]

private theorem mergedFiles_eq (fresh : List Commit) (merges : List CommitId) :
    mergedFiles fresh merges =
      broughtIn fresh merges >>= fun brought => pure (brought.flatMap Prod.snd) := by
  unfold mergedFiles broughtIn
  cases merges.isEmpty with
  | true => rfl
  | false => simp [mapM_beside (mergeFilesWithin _), List.flatMap_def]

/-- A refresh finds the files of each commit and then takes them together. -/
theorem gather_eq : gather = find >>= fun findings => pure findings.outcome := by
  simp only [gather, find, findFrom, changedFiles, mergedFiles_eq, merges, Findings.outcome,
    bind_assoc, pure_bind]

end Refresh

/-! ## Fork commits -/

/-- Whether a query tells what a merge brings in to a given main branch. -/
def Query.tellsMerges : Query → Prop
  | .parents _ | .ancestors _ | .filesBetween _ _ => True
  | _ => False

/-- Whether a query tells what fresh merges are going to bring in. -/
def Query.foretellsMerges (query : Query) : Prop :=
  query.tellsMerges ∨ query = .mainBranch ∨ query = .freshCommits

/-- What is kept of fork commits is what was kept before, and what a refresh sees where nothing
was. -/
structure ForksSeen (kept : Entries) (answers : Answers) (fresh : List Commit)
    (entries : Entries) : Prop where
  held : ∀ {commit : CommitId} {bytes}, entries forkCategory commit.text = some bytes →
    kept forkCategory commit.text = some bytes ∨
      ∃ fork, JsonForm.decode? (Option Commit) bytes = some (some fork) ∧
        SeenFork kept answers fresh commit (some fork)
  absent : ∀ {commit : CommitId}, entries forkCategory commit.text = none →
    kept forkCategory commit.text = none

namespace ForksSeen

variable {kept entries : Entries} {answers : Answers} {fresh : List Commit}

theorem refl : ForksSeen kept answers fresh kept := ⟨.inl, id⟩

theorem within : Entries.Within forkCategory (ForksSeen kept answers fresh) :=
  fun _ _ same seen =>
    ⟨fun held => seen.held ((same _).symm.trans held),
      fun none => seen.absent ((same _).symm.trans none)⟩

/-- What is shown as a fork commit is what the refresh sees. -/
theorem shown (seen : ForksSeen kept answers fresh entries) {commit : CommitId}
    {value : Option Commit} (shows : entries.Shows forkCategory commit.text (some value)) :
    SeenFork kept answers fresh commit value := by
  obtain ⟨bytes, held, read⟩ := shows
  rcases seen.held held with before | ⟨fork, decoded, isSeen⟩
  · exact .kept ⟨bytes, before, read⟩
  · cases read.symm.trans decoded
    exact isSeen

/-- Where the refresh sees a fork commit, no other entry is kept. -/
theorem isFork (seen : ForksSeen kept answers fresh entries) {commit : CommitId} {fork : Commit}
    (isSeen : SeenFork kept answers fresh commit (some fork)) {bytes : List UInt8}
    (held : entries forkCategory commit.text = some bytes) :
    ∃ fork, JsonForm.decode? (Option Commit) bytes = some (some fork) := by
  rcases seen.held held with before | ⟨other, decoded, -⟩
  · cases isSeen with
    | kept shown =>
      obtain ⟨same, held', read⟩ := shown
      cases before.symm.trans held'
      exact ⟨fork, read⟩
    | found absent => cases absent.symm.trans before
  · exact ⟨other, decoded⟩

theorem put_fork (seen : ForksSeen kept answers fresh entries) {commit : CommitId} {fork : Commit}
    (isSeen : SeenFork kept answers fresh commit (some fork)) :
    ForksSeen kept answers fresh
      (entries.put forkCategory commit.text (Text.bytes (JsonForm.compact (some fork)))) where
  held {other bytes} held := by
    rcases Entries.put_cases held with ⟨-, same, rfl⟩ | held
    · cases CommitId.text_injective same
      exact .inr ⟨fork, JsonForm.decode_compact (some fork), isSeen⟩
    · exact seen.held held
  absent none := seen.absent (Entries.absent_of_put none)

end ForksSeen

theorem MainSeen.within {kept : Entries} {answers : Answers} :
    Entries.Within mainBranchCategory (MainSeen kept answers) :=
  fun _ _ same seen => seen.congr (same "")

/-! ## What a merge brings in -/

section

variable {kept : Entries} {answers : Answers} {fresh main : List Commit}

/-- A fork commit that was not kept is the nearest one on the main branch as it is going to be. -/
theorem SeenFork.forkOn {commit : CommitId} {fork : Commit}
    (seen : SeenFork kept answers fresh commit (some fork))
    (absent : kept forkCategory commit.text = none) (seenMain : SeenMain kept answers main) :
    ForkOn answers ⟨fresh ++ main⟩ commit fork := by
  cases seen with
  | kept shown =>
    obtain ⟨bytes, held, -⟩ := shown
    cases absent.symm.trans held
  | @found commits ancestors _ _ seenMain' _ told first =>
    cases seenMain.unique seenMain'
    exact ⟨ancestors, told, first⟩

/-- A commit that brings something in has one parent at most, or one off the main branch as it is
going to be, with a fork commit. -/
theorem Brings.parents {merge : CommitId} {files : List String}
    (brings : Brings kept answers fresh merge files) (seenMain : SeenMain kept answers main) :
    ∃ parents, answers (.parents merge) = .ok parents ∧ (parents.length ≤ 1 ∨ ∃ branch fork,
      OneOff ⟨fresh ++ main⟩ parents branch ∧ SeenFork kept answers fresh branch (some fork)) := by
  cases brings with
  | plain told few => exact ⟨_, told, .inl few⟩
  | branch told seenMain' off isSeen differ =>
    cases seenMain.unique seenMain'
    exact ⟨_, told, .inr ⟨_, _, oneOff_iff.2 off, isSeen⟩⟩

end

/-- Where the refresh sees what a merge brings in, only a request that is refused keeps others from
being told. -/
theorem Attributing.refuses_of_brings {kept entries last : Entries} {answers : Answers}
    {fresh main : List Commit} {merge : CommitId} {files : List String}
    {events : List (Event Tracking)} {error : HistoryError}
    (attributing : Attributing ⟨fresh ++ main⟩ merge events (.error error))
    (leads : entries.Leads events last) (seen : ForksSeen kept answers fresh entries)
    (seenMain : SeenMain kept answers main) (brings : Brings kept answers fresh merge files)
    (answered : ∀ (query : Query) (value : query.Result), query.tellsMerges →
      .query query (.ok value) ∈ events → answers query = .ok value) : Refuses events := by
  obtain ⟨known, isKnown, kind⟩ := brings.parents seenMain
  have toldKnown {parents : List CommitId} {more : List (Event Tracking)}
      (same : events = .query (.parents merge) (.ok parents) :: more) : known = parents := by
    have told := answered (.parents merge) parents trivial (same ▸ List.mem_cons_self)
    exact Except.ok.inj (isKnown.symm.trans told)
  have seenFork {branch : CommitId} (oneOff : OneOff ⟨fresh ++ main⟩ known branch) :
      ∃ fork, SeenFork kept answers fresh branch (some fork) := by
    rcases kind with few | ⟨other, fork, isBranch, isSeen⟩
    · simp [oneOff.length_eq] at few
    · cases oneOff.unique isBranch
      exact ⟨fork, isSeen⟩
  generalize failed : (Except.error error : Except HistoryError (List String)) = result
    at attributing
  cases attributing with
  | untold => exact ⟨_, List.mem_cons_self, rfl⟩
  | few few => cases failed
  | octopus many =>
    cases toldKnown rfl
    rcases kind with few | ⟨branch, fork, oneOff, -⟩
    · omega
    · simp [oneOff.length_eq] at many
  | unclear same =>
    cases toldKnown rfl
    rcases kind with few | ⟨branch, fork, oneOff, -⟩
    · simp at few
    · exact absurd same oneOff.contains_ne
  | @unforked parents branch forking _ oneOff ends =>
    cases toldKnown rfl
    obtain ⟨-, leads⟩ := leads
    obtain ⟨fork, isSeen⟩ := seenFork oneOff
    cases ends_forkWithin (fun _ held => seen.isFork isSeen held) oneOff.1 ends leads with
    | missing none still =>
      obtain ⟨absent, ancestors, told, noFirst⟩ := none
      have listed := answered (.ancestors branch) ancestors trivial (List.mem_cons_of_mem _ told)
      obtain ⟨ancestors', listed', first⟩ := isSeen.forkOn (seen.absent absent) seenMain
      cases listed.symm.trans listed'
      cases noFirst.symm.trans first
    | refused noViolation refuses => exact refuses.mono (List.subset_cons_self _ _)
  | noFork oneOff ends =>
    cases toldKnown rfl
    obtain ⟨-, leads⟩ := leads
    obtain ⟨fork, isSeen⟩ := seenFork oneOff
    nomatch ends_forkWithin (fun _ held => seen.isFork isSeen held) oneOff.1 ends leads
  | @compared _ _ _ _ told oneOff ends =>
    cases told with
    | ok files => cases failed
    | error error =>
      exact ⟨_, List.mem_cons_of_mem _ (List.mem_append_right _ List.mem_cons_self), rfl⟩

/-! ## What a merge is said to bring in -/

namespace Surroundings

variable {σ : Type} {S : Surroundings σ} {orders concern : Query → Prop} {kept : Entries}
  {answers now : LocaleWatch.Answers} {fresh : List Commit} {mainKept : Entries → Prop}

/-- The repository answers some queries in one way, what is kept of the main branch has a property,
and what is kept of fork commits is what a refresh sees. -/
abbrev Foresees (S : Surroundings σ) (concern : Query → Prop) (now : LocaleWatch.Answers)
    (mainKept : Entries → Prop) (kept : Entries) (answers : LocaleWatch.Answers)
    (fresh : List Commit) : σ → Prop :=
  S.Holding concern now fun entries => mainKept entries ∧ ForksSeen kept answers fresh entries

section

variable (steady : S.SteadyBut orders concern)
  (onlyOrders : ∀ query, orders query → query.isOrder = true)
  (concerned : ∀ query, query.tellsMerges → concern query)
  (within : Entries.Within mainBranchCategory mainKept)
  (same : ∀ query, query.tellsMerges → now query = answers query)
  {main : List Commit} (seenMain : SeenMain kept answers main)
include steady onlyOrders concerned within same seenMain

/-- A commit off the main branch gets the fork commit that the refresh sees. -/
theorem keeps_seenFork (commit : CommitId) :
    Attempt.Keeps S.handler (S.Foresees concern now mainKept kept answers fresh)
      (forkWithin ⟨fresh ++ main⟩ commit)
      (OffMain ⟨fresh ++ main⟩ commit (SeenFork kept answers fresh commit)) := by
  refine keeps_forkFound steady onlyOrders (concerned _ trivial)
    (fun holds shows => holds.2.shown shows) (fun holds none => holds.2.absent none) ?_
  rintro fork off absent ⟨ancestors, told, first⟩
  have seen : SeenFork kept answers fresh commit (some fork) :=
    .found absent seenMain off ((same (.ancestors commit) trivial).symm.trans told) first
  exact ⟨seen, fun holds => ⟨within.put (by decide) _ _ holds.1, holds.2.put_fork seen⟩⟩

/-- What a merge is said to bring in is what the refresh sees it bring in. -/
theorem keeps_seenFiles (merge : CommitId) :
    Attempt.Keeps S.handler (S.Foresees concern now mainKept kept answers fresh)
      (mergeFilesWithin ⟨fresh ++ main⟩ merge) (Brings kept answers fresh merge) := by
  have asked (query : Query) (question : query.isOrder = false) (tells : query.tellsMerges) :
      Attempt.Keeps S.handler (S.Foresees concern now mainKept kept answers fresh)
        (Tracking.query query) fun value => answers query = .ok value := by
    apply (keeps_answer steady onlyOrders question (concerned _ tells)).mono
    exact fun value told => (same query tells).symm.trans told
  unfold mergeFilesWithin
  apply (asked (.parents merge) rfl trivial).bind
  intro parents told
  split
  · exact .pure (.plain told (Nat.zero_le 1))
  · exact .pure (.plain told (Nat.le_refl 1))
  · next first second =>
    split
    · next branch off =>
      have isOff : (MainBranch.mk (fresh ++ main)).contains branch = false := (oneOff_iff.2 off).1
      apply (keeps_seenFork steady onlyOrders concerned within same seenMain branch).bind
      intro fork found
      cases fork with
      | none => exact .throw
      | some fork =>
        apply (asked (.filesBetween fork.id branch) rfl trivial).mono
        exact fun files differ => .branch told seenMain off (found.of_off isOff) differ
    · exact .throw
  · exact .throw

end

/-! ## Whoever asks later -/

/-- A main branch that is kept in a readable form is asked for in vain only if a request is
refused. -/
theorem mainBranch_refuses {state : σ} {error : HistoryError}
    (right : MainRight now (S.entries state))
    (failed : S.result mainBranch state = .error error) : Refuses (S.trace mainBranch state) := by
  have leads := S.leads mainBranch state
  have ends := S.ends_trace mainBranch state
  rw [failed] at ends
  rcases ends_bind.1 ends with ⟨error, looked, -⟩ | ⟨commits, _, _, _, _, last⟩
  · obtain ⟨reading, unread⟩ := ends_getUnless looked
    have lookup := (unread.among (asks_query _ rfl) leads).1
    refine Lookup.refuses .mainBranch lookup fun unreadable => ?_
    obtain ⟨bytes, held, noValue⟩ := Option.map_eq_some_iff.1 unreadable
    obtain ⟨commits, decoded, -⟩ := right bytes held
    cases noValue.symm.trans decoded
  · cases (ends_pure.1 last).2

section

variable (steady : S.SteadyBut orders concern)
  (onlyOrders : ∀ query, orders query → query.isOrder = true)
  (fixed : S.SteadyBut (fun _ => False) Query.tellsMerges)
  (concerned : ∀ query, query.tellsMerges → concern query)
  (within : Entries.Within mainBranchCategory mainKept)
  (same : ∀ query, query.tellsMerges → now query = answers query)
  {main : List Commit} (seenMain : SeenMain kept answers main)
include steady onlyOrders fixed concerned within same seenMain

/-- What the refresh sees a merge bring in is given, unless a request is refused. -/
theorem mergeFilesWithin_foreseen {merge : CommitId} {files : List String} {state : σ}
    (brings : Brings kept answers fresh merge files)
    (holds : S.Foresees concern now mainKept kept answers fresh state) :
    S.result (mergeFilesWithin ⟨fresh ++ main⟩ merge) state = .ok files ∨
      ∃ error, S.result (mergeFilesWithin ⟨fresh ++ main⟩ merge) state = .error error ∧
        Refuses (S.trace (mergeFilesWithin ⟨fresh ++ main⟩ merge) state) := by
  have leads := S.leads (mergeFilesWithin ⟨fresh ++ main⟩ merge) state
  have attributing := ends_mergeFilesWithin
    (S.ends_trace (mergeFilesWithin ⟨fresh ++ main⟩ merge) state)
  have partly := (keeps_run
    (keeps_seenFiles steady onlyOrders concerned within same seenMain merge) holds).2
  have answered (query : Query) (value : query.Result) (tells : query.tellsMerges)
      (told : .query query (.ok value) ∈
        S.trace (mergeFilesWithin ⟨fresh ++ main⟩ merge) state) : answers query = .ok value :=
    (same query tells).symm.trans <| (holds.answers query (concerned query tells)).symm.trans <|
      answer_of_trace fixed tells told
  cases result : S.result (mergeFilesWithin ⟨fresh ++ main⟩ merge) state with
  | ok again => exact .inl (by rw [brings.unique (partly again result)])
  | error error =>
    refine .inr ⟨error, rfl, ?_⟩
    rw [result] at attributing
    exact attributing.refuses_of_brings leads holds.entries.2 seenMain brings answered

omit within in
/-- So it is whoever asks for the files of the merge, where the main branch is the one that the
refresh was going to have. -/
theorem mergeFiles_foreseen (onMain : concern .mainBranch)
    (told : now .mainBranch = .ok (fresh ++ main)) {merge : CommitId} {files : List String}
    {state : σ} (brings : Brings kept answers fresh merge files)
    (holds : S.Foresees concern now (MainSeen .empty now) kept answers fresh state) :
    S.result (mergeFiles merge) state = .ok files ∨
      ∃ error, S.result (mergeFiles merge) state = .error error ∧
        Refuses (S.trace (mergeFiles merge) state) := by
  have run := keeps_run (keeps_mainHeld steady onlyOrders onMain
    fun entries bytes seen => ForksSeen.within.put (by decide) _ _ seen) holds
  unfold mergeFiles
  cases looked : S.result mainBranch state with
  | error error =>
    rw [result_bind, looked, trace_bind_error looked]
    exact .inr ⟨error, rfl, mainBranch_refuses holds.entries.1.mainRight looked⟩
  | ok found =>
    obtain ⟨commits⟩ := found
    cases told.symm.trans (run.2 ⟨commits⟩ looked)
    rw [result_bind, looked, trace_bind_ok looked]
    refine (mergeFilesWithin_foreseen steady onlyOrders fixed concerned MainSeen.within same
      seenMain brings run.1).imp_right ?_
    rintro ⟨error, failed, refuses⟩
    exact ⟨error, failed, refuses.mono (List.subset_append_right _ _)⟩

end

/-! ## The refresh -/

section

variable (moves : S.MovesByPull) (fixed : S.SteadyBut (fun _ => False) Query.tellsMerges)
include moves fixed

private theorem foreseen_steady :
    S.SteadyBut (·.isOrder = true) Query.foretellsMerges := by
  rintro request state query (tells | rfl | rfl) idle
  · exact fixed request state query tells nofun
  · refine moves.main request state .mainBranch rfl ?_
    rintro order rfl same
    exact idle .pull rfl same
  · exact moves.fresh request state .freshCommits rfl idle

/-- What is kept while a refresh finds out what its fresh merges bring in. -/
private abbrev Finding (S : Surroundings σ) (kept : Entries) (answers : LocaleWatch.Answers)
    (fresh : List Commit) : σ → Prop :=
  S.Foresees Query.foretellsMerges answers (MainSeen kept answers) kept answers fresh

/-- What is brought in is brought in by fresh commits, and it is what the refresh sees. -/
private theorem keeps_broughtIn (merges : List CommitId) :
    Attempt.Keeps S.handler (S.Finding kept answers fresh) (Refresh.broughtIn fresh merges)
      fun brought => ∀ item ∈ brought, item.1 ∈ merges ∧
        (∃ main, SeenMain kept answers main) ∧ Brings kept answers fresh item.1 item.2 := by
  have steady := foreseen_steady moves fixed
  unfold Refresh.broughtIn
  split
  · exact .pure nofun
  · have main : Attempt.Keeps S.handler (S.Finding kept answers fresh) mainBranch fun main =>
        SeenMain kept answers main.commits :=
      keeps_mainBranch steady (fun _ isOrder => isOrder) (.inr (.inl rfl)) (fun _ holds => holds.1)
        fun _ _ absent told holds =>
          ⟨.put absent told, ForksSeen.within.put (by decide) _ _ holds.2⟩
    apply main.bind
    intro main seenMain
    have each (merge : CommitId) : Attempt.Keeps S.handler (S.Finding kept answers fresh)
        (do return (merge, ← mergeFilesWithin (main.extendedWith fresh) merge) :
          History (CommitId × List String))
        fun item => item.1 = merge ∧ Brings kept answers fresh merge item.2 :=
      (keeps_seenFiles steady (fun _ isOrder => isOrder) (fun _ tells => .inl tells)
        MainSeen.within (fun _ _ => rfl) seenMain merge).bind fun files brings =>
          .pure ⟨rfl, brings⟩
    apply (Attempt.Keeps.mapM fun merge _ => each merge).mono
    rintro brought ⟨-, known⟩ item mem
    obtain ⟨merge, isMerge, same, brings⟩ := known item mem
    exact ⟨same ▸ isMerge, ⟨main.commits, seenMain⟩, same ▸ brings⟩

private theorem keeps_findFrom :
    Attempt.Keeps S.handler (S.Finding kept answers fresh) (Refresh.findFrom fresh)
      fun findings => findings.fresh = fresh ∧ ∀ item ∈ findings.brought,
        (∃ commit ∈ fresh, item.1 = commit.id) ∧ (∃ main, SeenMain kept answers main) ∧
          Brings kept answers fresh item.1 item.2 := by
  have quiet : S.Undisturbed (S.Finding kept answers fresh) :=
    holding_undisturbed (foreseen_steady moves fixed) fun _ isOrder => isOrder
  have each (commit : Commit) : Attempt.Keeps S.handler (S.Finding kept answers fresh)
      (do return (commit.id, ← Tracking.query (.filesIn commit.id)) :
        History (CommitId × List String)) fun listing => listing.1 = commit.id :=
    (keeps_asked quiet rfl).bind fun files _ => .pure rfl
  apply Attempt.Keeps.bind (.mapM fun commit _ => each commit)
  rintro listed ⟨-, known⟩
  apply (keeps_broughtIn moves fixed _).bind
  intro brought isBrought
  refine .pure ⟨rfl, fun item mem => ?_⟩
  obtain ⟨isMerge, seen⟩ := isBrought item mem
  obtain ⟨listing, isListing, same⟩ := List.mem_map.1 isMerge
  obtain ⟨commit, isFresh, named⟩ := known listing (List.mem_filter.1 isListing).1
  exact ⟨⟨commit, isFresh, same.symm.trans named⟩, seen⟩

/-- What a refresh finds out it finds out among answers that stay as they were when it was told
what is fresh. -/
private theorem find_foreseen {state : σ} {findings : Refresh.Findings}
    (told : S.result Refresh.find state = .ok findings) :
    ∃ answers : LocaleWatch.Answers,
      (∀ query, query.tellsMerges ∨ query = .mainBranch →
        answers query = S.answer state query) ∧
      answers .freshCommits = .ok findings.fresh ∧
      S.Finding (S.entries state) answers findings.fresh (S.after Refresh.find state) ∧
      ∀ item ∈ findings.brought, (∃ commit ∈ findings.fresh, item.1 = commit.id) ∧
        (∃ main, SeenMain (S.entries state) answers main) ∧
          Brings (S.entries state) answers findings.fresh item.1 item.2 := by
  obtain ⟨⟨⟩, fetched, rest⟩ := result_bind_ok told
  obtain ⟨fresh, asked, finds⟩ := result_bind_ok rest
  rw [after_query] at asked rest finds
  rw [after_query] at finds
  have still (request : Query) (other : request ≠ .pull) (before : σ) (query : Query)
      (known : query.tellsMerges ∨ query = .mainBranch) :
      S.answer (S.next (.query request) before) query = S.answer before query := by
    rcases known with tells | rfl
    · exact fixed _ before query tells nofun
    · refine moves.main _ before .mainBranch rfl ?_
      rintro order rfl same
      cases same
      exact absurd rfl other
  have idle :
      S.answer (S.next (.query .freshCommits) (S.next (.query .fetch) state)) .freshCommits =
        S.answer (S.next (.query .fetch) state) .freshCommits := by
    refine moves.fresh _ _ .freshCommits rfl ?_
    rintro order isOrder same
    cases same
    cases isOrder
  have untouched : S.entries (S.next (.query .freshCommits) (S.next (.query .fetch) state)) =
      S.entries state :=
    (S.entries_spared rfl).trans (S.entries_spared rfl)
  have start : S.Finding (S.entries state)
      (S.answer (S.next (.query .freshCommits) (S.next (.query .fetch) state))) fresh
      (S.next (.query .freshCommits) (S.next (.query .fetch) state)) := by
    refine ⟨fun _ _ => rfl, ?_⟩
    rw [untouched]
    exact ⟨.refl, .refl⟩
  obtain ⟨kept, found⟩ := keeps_run (keeps_findFrom moves fixed) start
  obtain ⟨rfl, brought⟩ := found findings finds
  refine ⟨_, fun query known => ?_, idle.trans (answer_of_result asked), ?_, brought⟩
  · exact (still .freshCommits nofun _ query known).trans (still .fetch nofun state query known)
  · have ended : S.after Refresh.find state = S.after (Refresh.findFrom findings.fresh)
        (S.next (.query .freshCommits) (S.next (.query .fetch) state)) := by
      unfold Refresh.find
      rw [after_bind, fetched, after_query]
      show S.after (Tracking.query .freshCommits >>= Refresh.findFrom) _ = _
      rw [after_bind, asked, after_query]
    rw [ended]
    exact kept

private theorem keeps_forgets (path : String) :
    Attempt.Keeps S.handler (S.Finding kept answers fresh) (forgetFile path) fun _ => True := by
  have steady := foreseen_steady moves fixed
  refine keeps_forgetFile (fun holds => holds.delete steady fun both => ?_)
    (fun holds => holds.delete steady fun both => ?_) path
  · exact ⟨MainSeen.within.remove (by decide) _ both.1,
      ForksSeen.within.remove (by decide) _ both.2⟩
  · exact ⟨MainSeen.within.remove (by decide) _ both.1,
      ForksSeen.within.remove (by decide) _ both.2⟩

/-- After the pull, what is kept of fork commits stays. -/
private theorem keeps_settles (outcome : Refresh.Outcome) :
    Attempt.Keeps S.handler
      (S.Foresees Query.foretellsMerges now (fun _ => True) kept answers fresh)
      (Refresh.settle outcome) fun _ => True := by
  have steady := foreseen_steady moves fixed
  have record : Attempt.Keeps S.handler
      (S.Foresees Query.foretellsMerges now (fun _ => True) kept answers fresh)
      (Refresh.record outcome) fun _ => True :=
    (keeps_record (holding_undisturbed steady fun _ isOrder => isOrder)
      (fun holds => holds.write steady fun both =>
        ⟨trivial, ForksSeen.within.put (by decide) _ _ both.2⟩) outcome).mono fun _ _ => trivial
  unfold Refresh.settle
  cases outcome.fresh.isEmpty with
  | true => exact record
  | false =>
    have drop : Attempt.Keeps S.handler
        (S.Foresees Query.foretellsMerges now (fun _ => True) kept answers fresh)
        (Cache.drop mainBranchCategory "") fun _ => True :=
      keeps_drop fun holds => holds.delete steady fun both =>
        ⟨trivial, ForksSeen.within.remove (by decide) _ both.2⟩
    exact drop.mapError.andThen fun _ => record

/-- What a refresh has found out that gives an outcome, and what it leaves. -/
private theorem refresh_foreseen {state : σ} {outcome : Refresh.Outcome}
    (told : S.result Refresh.run state = .ok outcome) :
    ∃ (findings : Refresh.Findings) (answers now : LocaleWatch.Answers),
      S.result Refresh.find state = .ok findings ∧ outcome = findings.outcome ∧
      (answers .mainBranch = S.answer state .mainBranch) ∧
      (∀ query, query.tellsMerges → now query = answers query) ∧
      (∀ main, answers .mainBranch = .ok main → now .mainBranch = .ok (findings.fresh ++ main)) ∧
      (∀ item ∈ findings.brought, (∃ commit ∈ findings.fresh, item.1 = commit.id) ∧
        (∃ main, SeenMain (S.entries state) answers main) ∧
          Brings (S.entries state) answers findings.fresh item.1 item.2) ∧
      S.Foresees Query.foretellsMerges now (fun _ => True) (S.entries state) answers findings.fresh
        (S.after Refresh.run state) := by
  have prepare_eq : Refresh.prepare = Refresh.find >>= fun findings =>
      findings.outcome.changed.forM forgetFile >>= fun _ => pure findings.outcome := by
    simp only [Refresh.prepare, Refresh.gather_eq, bind_assoc, pure_bind]
  obtain ⟨prepared, pulled, -, ended⟩ := run_ended told
  have prepares := prepared
  rw [prepare_eq] at prepares
  obtain ⟨findings, found, rest⟩ := result_bind_ok prepares
  obtain ⟨⟨⟩, forgot, same⟩ := result_bind_ok rest
  cases same
  obtain ⟨answers, still, isFresh, holds, brought⟩ := find_foreseen moves fixed found
  have before : S.Finding (S.entries state) answers findings.fresh
      (S.after Refresh.prepare state) := by
    have ended : S.after Refresh.prepare state =
        S.after (findings.outcome.changed.forM forgetFile) (S.after Refresh.find state) := by
      rw [prepare_eq, after_bind, found]
      show S.after
        (findings.outcome.changed.forM forgetFile >>= fun _ => pure findings.outcome) _ = _
      rw [after_bind, forgot]
      rfl
    rw [ended]
    exact (keeps_run (.forM fun path _ => keeps_forgets moves fixed path) holds).1
  obtain ⟨fresh, isFresh', grown⟩ := moves.pull pulled
  cases isFresh.symm.trans ((before.answers .freshCommits (.inr (.inr rfl))).symm.trans isFresh')
  have unmoved : S.entries (S.next (.query .pull) (S.after Refresh.prepare state)) =
      S.entries (S.after Refresh.prepare state) := S.entries_spared rfl
  refine ⟨findings, answers, S.answer (S.next (.query .pull) (S.after Refresh.prepare state)),
    found, rfl, still _ (.inr rfl), fun query tells => ?_, fun main isMain => ?_, brought, ?_⟩
  · refine (fixed _ _ query tells fun _ never => ?_).trans (before.answers query (.inl tells))
    exact never.elim
  · exact grown main ((before.answers .mainBranch (.inr (.inl rfl))).trans isMain)
  · rw [ended]
    refine (keeps_run (keeps_settles moves fixed findings.outcome) ⟨fun _ _ => rfl, trivial, ?_⟩).1
    rw [unmoved]
    exact before.entries.2

/-- Whatever is asked before the next refresh, what is kept stays as foreseen. -/
private theorem reached_foreseen {main : List Commit} (seenMain : SeenMain kept answers main)
    (isMain : now .mainBranch = .ok (fresh ++ main))
    (same : ∀ query, query.tellsMerges → now query = answers query) {start last : σ}
    (holds : S.Foresees Query.foretellsMerges now (MainSeen .empty now) kept answers fresh start)
    (reached : S.Reached (· = start) (fun call _ => call ≠ .refresh) last) :
    S.Foresees Query.foretellsMerges now (MainSeen .empty now) kept answers fresh last := by
  have steady := foreseen_steady moves fixed
  have quiet : S.Undisturbed
      (S.Foresees Query.foretellsMerges now (MainSeen .empty now) kept answers fresh) :=
    holding_undisturbed steady fun _ isOrder => isOrder
  have sustains : S.Sustains
      (S.Foresees Query.foretellsMerges now (MainSeen .empty now) kept answers fresh)
      fun main => now .mainBranch = .ok main.commits := by
    refine mainHolds_sustains steady (fun _ isOrder => isOrder) (.inr (.inl rfl)) (.inl rfl)
      ForksSeen.within (fun other commit told => ?_) fun other commit _ =>
        keeps_mergeLookup quiet (mainHolds_admits steady ForksSeen.within (by decide) (by decide))
          other commit
    obtain ⟨commits⟩ := other
    cases isMain.symm.trans told
    exact (keeps_seenFork steady (fun _ isOrder => isOrder) (fun _ tells => .inl tells)
      MainSeen.within same seenMain commit).mono fun _ _ => trivial
  induction reached with
  | start starts =>
    subst starts
    exact holds
  | ended before call other ih => exact (keeps_run (sustains.call call other) ih).1
  | stopped before call count other ih => exact keeps_stopped (sustains.call call other) ih count

/-- What a refresh attributes to a merge is what is given for it after the refresh. The state may be
any in which a kept main branch is the repository's. The files are among the changed ones, and they
are given whenever the question is asked before the next refresh, unless a request is refused. -/
theorem prediction_holds {state : σ} (right : MainRight (S.answer state) (S.entries state))
    {outcome : Refresh.Outcome} (told : S.result Refresh.run state = .ok outcome) :
    ∃ findings, S.result Refresh.find state = .ok findings ∧ outcome = findings.outcome ∧
      ∀ merge files, (merge, files) ∈ findings.brought →
        (∃ commit ∈ outcome.fresh, merge = commit.id) ∧
        (∀ file ∈ files, file ∈ outcome.changed) ∧
        S.entries (S.after Refresh.run state) mainBranchCategory "" = none ∧
        ∃ main, S.answer state .mainBranch = .ok main ∧
          ∀ last, S.Reached (· = S.after Refresh.run state) (fun call _ => call ≠ .refresh) last →
            S.answer last .mainBranch = .ok (outcome.fresh ++ main) ∧
            (S.result (mergeFiles merge) last = .ok files ∨
              ∃ error, S.result (mergeFiles merge) last = .error error ∧
                Refuses (S.trace (mergeFiles merge) last)) := by
  obtain ⟨findings, answers, now, found, rfl, still, same, grown, brought, after⟩ :=
    refresh_foreseen moves fixed told
  refine ⟨findings, found, rfl, fun merge files mem => ?_⟩
  obtain ⟨⟨commit, isFresh, rfl⟩, ⟨main, seenMain⟩, brings⟩ := brought _ mem
  have dropped : S.entries (S.after Refresh.run state) mainBranchCategory "" = none := by
    refine (refresh_effect told).2.1.trans (if_neg ?_)
    rw [List.isEmpty_iff]
    exact List.ne_nil_of_mem isFresh
  have isMain : answers .mainBranch = .ok main := by
    rcases seenMain with ⟨bytes, held, decoded⟩ | ⟨-, told⟩
    · obtain ⟨commits, decoded', told⟩ := right bytes held
      cases decoded.symm.trans decoded'
      exact still.trans told
    · exact told
  refine ⟨⟨commit, isFresh, rfl⟩, fun file isFile => ?_, dropped, main, still.symm.trans isMain,
    fun last reached => ?_⟩
  · exact Text.mem_sortedDistinct.2 (List.mem_append_right _ (List.mem_flatMap.2 ⟨_, mem, isFile⟩))
  · have isGrown := grown main isMain
    have holds := reached_foreseen moves fixed seenMain isGrown same
      ⟨after.answers, .of_absent dropped, after.entries.2⟩ reached
    refine ⟨(holds.answers .mainBranch (.inr (.inl rfl))).trans isGrown, ?_⟩
    exact mergeFiles_foreseen (foreseen_steady moves fixed) (fun _ isOrder => isOrder) fixed
      (fun _ tells => .inl tells) same seenMain (.inr (.inl rfl)) isGrown brings holds

end

/-- A repository with a branch that is merged, which tells fewer files the later the branch is
compared from. -/
def forking (pulled : Bool) : LocaleWatch.Answers
  | .filesBetween first _ => .ok (if first = baseCommit.id then ["guide", "page"] else ["guide"])
  | query => branched pulled query

/-- The state after the fork commit of the branch was looked up, before anything is fresh. -/
def forkAsked : Bool × Entries :=
  (pulling forking).after (History.fork branchCommit.id) (false, .empty)

/-- The state after a refresh and one more question. -/
def mergePulled : Bool × Entries :=
  (pulling forking).after (Call.lastCommit (Path.ofText "page")).attempt
    ((pulling forking).after Refresh.run forkAsked)

/-- The branch is compared with the fork commit that was kept before the refresh, then and later. -/
theorem prediction_holds_kept :
    (pulling forking).result Refresh.run forkAsked =
        .ok ⟨[mergeCommit, nextCommit], ["guide", "page"]⟩ ∧
      (pulling forking).result (mergeFiles mergeCommit.id) mergePulled = .ok ["guide", "page"] := by
  have moves : (pulling forking).MovesByPull :=
    { main := pulling_steadyBut rfl
      fresh := pulling_steadyBut rfl
      pull := fun {state} _ => by
        obtain ⟨pulled, entries⟩ := state
        cases pulled with
        | false => exact ⟨[mergeCommit, nextCommit], rfl, fun main told => by cases told; rfl⟩
        | true => exact ⟨[], rfl, fun main told => by cases told; rfl⟩ }
  have fixed : (pulling forking).SteadyBut (fun _ => False) Query.tellsMerges := by
    refine calm_steadyBut fun query pulled asked _ tells => ?_
    cases asked with
    | parents merge => rfl
    | ancestors commit => rfl
    | filesBetween first last => rfl
    | _ => cases tells
  have right : MainRight ((pulling forking).answer forkAsked)
      ((pulling forking).entries forkAsked) := by
    intro bytes held
    have kept : (pulling forking).entries forkAsked mainBranchCategory "" =
        some (Text.bytes (JsonForm.compact [baseCommit])) := by
      decide +kernel
    cases kept.symm.trans held
    exact ⟨[baseCommit], JsonForm.decode_compact [baseCommit], rfl⟩
  have told : (pulling forking).result Refresh.run forkAsked =
      .ok ⟨[mergeCommit, nextCommit], ["guide", "page"]⟩ := by
    decide +kernel
  obtain ⟨findings, found, -, holds⟩ := prediction_holds moves fixed right told
  have brought : (pulling forking).result Refresh.find forkAsked =
      .ok ⟨[mergeCommit, nextCommit], [(mergeCommit.id, []), (nextCommit.id, ["page"])],
        [(mergeCommit.id, ["guide", "page"])]⟩ := by
    decide +kernel
  cases brought.symm.trans found
  obtain ⟨-, -, -, main, -, later⟩ := holds _ _ (List.mem_singleton_self _)
  have reached : (pulling forking).Reached (· = (pulling forking).after Refresh.run forkAsked)
      (fun call _ => call ≠ .refresh) mergePulled := by
    have start : (pulling forking).Reached (· = (pulling forking).after Refresh.run forkAsked)
      (fun call _ => call ≠ .refresh) ((pulling forking).after Refresh.run forkAsked) := .start rfl
    exact start.ended (.lastCommit (Path.ofText "page")) nofun
  refine ⟨told, ?_⟩
  rcases (later mergePulled reached).2 with given | ⟨error, -, refuses⟩
  · exact given
  · refine absurd refuses ?_
    unfold Refuses
    decide +kernel

end Surroundings

end LocaleWatch
