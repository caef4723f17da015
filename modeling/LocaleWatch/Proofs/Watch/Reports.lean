import LocaleWatch.Proofs.Cache.Confined
import LocaleWatch.Proofs.Json.Kept
import LocaleWatch.Proofs.Staleness.Inside

/-!
# The reports of a run

A run looks the main branch up once more after the refresh, and each check of a language looks it up
again. Between these lookups nothing changes the kept main branch: checks write other entries, and
reports and the lock lie in other directories. So all of them see the same main branch, and the head
that a report shows is the head of the branch that its files were compared on.

A run that fails, at whatever request, has written the reports of the languages before the one it
failed at, and every other report is as it was: each report is put in its place at once, and nothing
else in the directory of the reports is touched.

## Main results

* `Disk.ReportsShow.trans` — what was reported in two parts of a run, one after the other.
* `Run.exists_reported`, `Run.reportsShow_of_error` — how a language is reported, or not.
* `Run.reports_of_run` — how runs end and what they leave in the directory of the reports.
-/

namespace LocaleWatch

open Attempt Text

/-! ## Where reports lie -/

/-- The name of a language's report is a file's name. -/
theorem LanguageCode.isName_report {code : String} (valid : check code = .ok ()) :
    Path.IsName (bytes (code ++ ".json")) := by
  have shape : bytes (code ++ ".json") = bytes code ++ bytes ".json" := bytes_append ..
  have five : (bytes ".json").length = 5 := by decide
  constructor
  · rw [shape, List.mem_append, not_or]
    exact ⟨(isName valid).1, by decide⟩
  · have long : 5 ≤ (bytes (code ++ ".json")).length := by
      rw [shape, List.length_append, five]
      omega
    rw [Path.component?, if_neg, if_neg]
    · intro up
      simp [up] at long
    · rintro (void | void) <;> simp [void] at long

/-- A report lies in the directory of the reports, below the cache directory. -/
theorem CacheFolder.components_report (folder : CacheFolder) {language : String}
    (valid : LanguageCode.check language = .ok ()) :
    (folder.report language).components =
      folder.root.components ++
        [.name (bytes "reports"), .name (bytes (language ++ ".json"))] := by
  have reports : Path.IsName (bytes "reports") := ⟨by decide, rfl⟩
  refine ((LanguageCode.isName_report valid).components_join folder.reports).trans ?_
  rw [CacheFolder.reports, Path.ofText, reports.components_join, List.append_assoc]
  rfl

/-- No entry lies in the directory of the reports. -/
theorem EntryKind.reports_not_mem (kinds : Set EntryKind) :
    bytes "reports" ∉ EntryKind.directories kinds := by
  rintro ⟨kind, -, same⟩
  have category : kind.category = "reports" := bytes_injective same
  cases kind <;> exact absurd category (by decide)

/-- The last of some reports that is of a language. -/
def Report.latest? (reports : List Report) (language : String) : Option Report :=
  reports.reverse.find? fun report => report.language = language

theorem Report.latest?_append (first second : List Report) (language : String) :
    latest? (first ++ second) language = (latest? second language).or (latest? first language) := by
  rw [latest?, List.reverse_append, List.find?_append]
  rfl

theorem Report.of_latest? {reports : List Report} {language : String} {report : Report}
    (found : latest? reports language = some report) :
    report ∈ reports ∧ report.language = language := by
  have isOf := List.find?_some found
  exact ⟨List.mem_reverse.1 (List.mem_of_find?_eq_some found), of_decide_eq_true isOf⟩

namespace Disk

variable {σ : Type} (disk : Disk σ) (folder : CacheFolder)

/-- The bytes of a language's report. -/
def report (state : σ) (language : String) : Option (List UInt8) :=
  disk.files state (disk.leads (folder.report language))

/-- Below the directory of the reports. -/
def reportsPlace (rest : Location) : Location := disk.leads folder.root ++ bytes "reports" :: rest

/-- What some reports, written one after the other, make of the directory of the reports. -/
structure ReportsShow (reports : List Report) (state later : σ) : Prop where
  shown {language : String} (valid : LanguageCode.check language = .ok ()) :
    disk.report folder later language =
      ((Report.latest? reports language).map fun report => bytes (JsonForm.indented report)).or
        (disk.report folder state language)
  others {rest : Location} (there : disk.files state (disk.reportsPlace folder rest) ≠ none)
    (other : ∀ report ∈ reports,
      disk.reportsPlace folder rest ≠ disk.leads (folder.report report.language)) :
    disk.files later (disk.reportsPlace folder rest) =
      disk.files state (disk.reportsPlace folder rest)

variable {disk folder} {state between later : σ} {language : String}

theorem leads_report (valid : LanguageCode.check language = .ok ()) :
    disk.leads (folder.report language) =
      disk.reportsPlace folder [bytes (language ++ ".json")] :=
  disk.leads_inside (folder.components_report valid)

/-- Different languages have different reports. -/
theorem leads_report_inj {other : String} (valid : LanguageCode.check language = .ok ())
    (valid' : LanguageCode.check other = .ok ()) :
    disk.leads (folder.report language) = disk.leads (folder.report other) ↔
      language = other := by
  constructor
  · intro same
    rw [leads_report valid, leads_report valid'] at same
    have names := (List.cons.inj (List.cons.inj (List.append_cancel_left same)).2).1
    rw [bytes_append, bytes_append] at names
    exact bytes_injective (List.append_cancel_right names)
  · rintro rfl
    rfl

namespace ReportsShow

/-- Where no report was written, every report is as it was if all of its directory is. -/
theorem of_same
    (same : ∀ rest, disk.files later (disk.reportsPlace folder rest) =
      disk.files state (disk.reportsPlace folder rest)) :
    disk.ReportsShow folder [] state later where
  shown valid := by
    unfold report
    rw [leads_report valid]
    exact same _
  others _ _ := same _

/-- Changes in other directories are no changes of reports. -/
theorem of_confined {names : Set (List UInt8)}
    (confined : disk.Confined folder names state later) (other : bytes "reports" ∉ names) :
    disk.ReportsShow folder [] state later :=
  of_same fun rest => confined.files other rest

/-- What was reported after other reports is shown, and what was reported before unless there is a
later report of the language. -/
protected theorem trans {first second : List Report}
    (before : disk.ReportsShow folder first state between)
    (after : disk.ReportsShow folder second between later) :
    disk.ReportsShow folder (first ++ second) state later where
  shown {language} valid := by
    rw [after.shown valid, before.shown valid, Report.latest?_append]
    cases Report.latest? second language <;> rfl
  others {rest} there other := by
    have kept := before.others there fun report mem => other report (List.mem_append_left _ mem)
    rw [← kept] at there ⊢
    exact after.others there fun report mem => other report (List.mem_append_right _ mem)

end ReportsShow

/-! ## Writing a report -/

section

variable {content : List UInt8} (valid : LanguageCode.check language = .ok ())

include valid

/-- Whatever comes of it, writing a report changes nothing beside the reports. -/
theorem confined_report {result : Except Fault Unit}
    (runs : Runs disk.handle (Replacement.run (folder.report language) content) state
      result later) :
    disk.Confined folder {bytes "reports"} state later := by
  have confined : disk.Confined folder {bytes "reports"} state _ :=
    confined_replacement (folder.components_report valid) content state
  rwa [show (Replacement.run _ _).run.run disk.handle _ = _ from runs] at confined

/-- A report that was written is shown. -/
theorem reportsShow_of_replaced {report : Report} (isOf : report.language = language)
    (runs : Runs disk.handle
      (Replacement.run (folder.report language) (bytes (JsonForm.indented report))) state
      (.ok ()) later) :
    disk.ReportsShow folder [report] state later := by
  obtain ⟨base, grown, replaced⟩ := disk.replaced_of_ok (congrArg Prod.fst runs)
  have files : disk.files later = Function.update (disk.files state)
      (disk.leads (folder.report language)) (some (bytes (JsonForm.indented report))) := by
    rw [← grown.content, ← replaced.files, show _ = later from congrArg Prod.snd runs]
  subst isOf
  constructor
  · intro other isCode
    unfold Disk.report
    by_cases same : report.language = other
    · subst same
      rw [files, Function.update_self]
      simp [Report.latest?]
    · have elsewhere : disk.leads (folder.report other) ≠
          disk.leads (folder.report report.language) :=
        fun equal => same ((leads_report_inj isCode valid).1 equal).symm
      rw [files, Function.update_of_ne elsewhere]
      simp [Report.latest?, same]
  · intro rest _ other
    rw [files, Function.update_of_ne (other report (List.mem_singleton_self _))]

/-- A report that was not written leaves all of them. -/
theorem reportsShow_of_refused {fault : Fault}
    (runs : Runs disk.handle (Replacement.run (folder.report language) content) state
      (.error fault) later) :
    disk.ReportsShow folder [] state later := by
  obtain ⟨base, grown, undone⟩ := disk.undone_of_error (congrArg Prod.fst runs)
  rw [show _ = later from congrArg Prod.snd runs] at undone
  rcases undone with same | ⟨draft, refusal, pending, -⟩
  · exact .of_same fun rest =>
      (congrArg FileEntry.content (congrFun same _)).trans (congrFun grown.content _)
  obtain ⟨ticket, rfl⟩ := pending.ours
  have kept {location : Location}
      (other : location ≠ disk.leads (Replacement.temporary (folder.report language) ticket)) :
      disk.files later location = disk.files state location :=
    (congrArg FileEntry.content (pending.others location other)).trans
      (congrFun grown.content location)
  have named : (folder.report language).fileName? ≠ none := by
    rw [CacheFolder.fileName?_inside (folder.components_report valid)]
    exact nofun
  constructor
  · intro other _
    exact kept ((disk.apart_of_temporary ticket (folder.getLast?_report other) (by decide)).2
      named).symm
  · intro rest there _
    refine kept ?_
    intro same
    rw [same, ← grown.content] at there
    exact there (congrArg FileEntry.content pending.free)

end

end Disk

/-! ## Runs on a disk -/

section

variable {σ : Type} {installation : Installation} {disk : Disk σ}

/-- Who answers a run on a disk. -/
def Installation.serves (installation : Installation) (disk : Disk σ) :
    Program.Handler Service σ :=
  Program.Handler.sum (installation.tracks disk) disk.handle

/-- What runs with the cache directory of an installation work on. -/
def Installation.settings (installation : Installation) (layout : Layout) (patience : Nat) :
    Run.Settings :=
  ⟨layout, installation.folder, patience⟩

namespace Run

variable {α : Type} {state later : σ}

theorem runs_askHistory_error {question : History α} {error : RunError} :
    Runs (installation.serves disk) (askHistory question) state (.error error) later ↔
      ∃ cause, Runs (installation.tracks disk) question state (.error cause) later ∧
        error = .history cause :=
  runs_inFirst.trans runs_mapError_error

theorem runs_askHistory_ok {question : History α} {value : α} :
    Runs (installation.serves disk) (askHistory question) state (.ok value) later ↔
      Runs (installation.tracks disk) question state (.ok value) later :=
  runs_inFirst.trans runs_mapError_ok

theorem runs_act_error {name : Fault → RunError} {action : Action α} {error : RunError} :
    Runs (installation.serves disk) (act name action) state (.error error) later ↔
      ∃ fault, Runs disk.handle action state (.error fault) later ∧ error = name fault :=
  runs_inSecond.trans runs_mapError_error

theorem runs_act_ok {name : Fault → RunError} {action : Action α} {value : α} :
    Runs (installation.serves disk) (act name action) state (.ok value) later ↔
      Runs disk.handle action state (.ok value) later :=
  runs_inSecond.trans runs_mapError_ok

/-- The system is told something that it does not refuse. -/
theorem runs_tell {request : Host.Request} {result : Except RunError (Host.Answer request)} :
    Runs (installation.serves disk) (Attempt.inSecond (Host.tell request)) state result later ↔
      result = .ok (disk.told request state) ∧ later = disk.after request state :=
  runs_inSecond.trans runs_ofProgram

/-! ### One language -/

/-- The files of a language were checked, and they were compared on this main branch. -/
structure Checked (installation : Installation) (disk : Disk σ) (layout : Layout)
    (main : MainBranch) (language : String) (start : σ) (files : List LocalizedFile)
    (later : σ) : Prop where
  given : Runs (installation.tracks disk) (Staleness.checkLanguage layout language) start
    (.ok files) later
  against : ∃ paths listed loaded,
    Runs (installation.tracks disk)
      (Tracking.query (.files (layout.languageDirectory language))) start (.ok paths) listed ∧
    Runs (installation.tracks disk) History.mainBranch listed (.ok main) loaded ∧
    Runs (installation.tracks disk) (paths.mapM (Staleness.checkFile layout main language)) loaded
      (.ok files) later

/-- A language was checked against this main branch, and what was found out was reported. -/
structure Reported (installation : Installation) (disk : Disk σ) (layout : Layout)
    (main : MainBranch) (language : String) (start : σ) (report : Report) (later : σ) : Prop where
  isOf : report.language = language
  head : report.head = main.head?.map (·.id)
  stale : report.stale =
    UInt64.ofNat (report.files.countP fun file => decide (file.status ≠ .unchanged))
  written : ∃ checked, Checked installation disk layout main language start report.files checked ∧
    report.generatedAt = disk.told .now checked ∧
    Runs disk.handle
      (Replacement.run (installation.folder.report language) (bytes (JsonForm.indented report)))
      (disk.after .now checked) (.ok ()) later

variable {layout : Layout} {main : MainBranch} {language : String} {patience : Nat}
  (apart : installation.Apart disk)

include apart

/-- A main branch that is kept is the one that a check compares with, and it is kept then. -/
theorem checked_of_runs {files : List LocalizedFile}
    (holds : disk.HoldsMain installation.folder main state)
    (runs : Runs (installation.tracks disk) (Staleness.checkLanguage layout language) state
      (.ok files) later) :
    Checked installation disk layout main language state files later ∧
      disk.HoldsMain installation.folder main later := by
  obtain ⟨paths, listed, lists, rest⟩ := runs_bind_ok.1 runs
  obtain ⟨other, loaded, loads, checks⟩ := runs_bind_ok.1 rest
  have still : disk.HoldsMain installation.folder main listed :=
    apart.holdsMain_of_runs (asks_query _ trivial) (Set.notMem_empty _) holds lists
  obtain rfl : other = main := apart.mainBranch_eq still loads
  have compared : (paths.mapM (Staleness.checkFile layout other language)).Asks
      (Tracking.Touches {.mainBranch}ᶜ) :=
    .mapM fun path _ => Staleness.touches_checkFile layout other language path
  exact ⟨⟨runs, paths, listed, loaded, lists, loads, checks⟩,
    apart.holdsMain_of_runs compared (not_not.2 rfl) (apart.holdsMain still.straight loads) checks⟩

/-- A language whose report was written was checked against the main branch that is kept. -/
theorem exists_reported {file : Path} (valid : LanguageCode.check language = .ok ())
    (holds : disk.HoldsMain installation.folder main state)
    (runs : Runs (installation.serves disk)
      (reportLanguage (installation.settings layout patience) (main.head?.map (·.id)) language)
      state (.ok file) later) :
    file = installation.folder.report language ∧
      (∃ report, Reported installation disk layout main language state report later) ∧
      disk.HoldsMain installation.folder main later := by
  obtain ⟨files, checked, checks, rest⟩ := runs_bind_ok.1 runs
  obtain ⟨now, told, asks, rest⟩ := runs_bind_ok.1 rest
  obtain ⟨⟨⟩, written, writes, rest⟩ := runs_bind_ok.1 rest
  obtain ⟨same, rfl⟩ := runs_pure.1 rest
  obtain ⟨clock, rfl⟩ := runs_tell.1 asks
  cases same
  cases clock
  obtain ⟨given, still⟩ := checked_of_runs apart holds (runs_askHistory_ok.1 checks)
  let report := Report.ofFiles language (disk.told .now checked) (main.head?.map (·.id)) files
  have replaced : Runs disk.handle (Replacement.run (installation.folder.report language)
      (bytes (JsonForm.indented report))) (disk.after .now checked) (.ok ()) later :=
    runs_act_ok.1 writes
  refine ⟨rfl, ⟨report, rfl, rfl, rfl, checked, given, rfl, replaced⟩, ?_⟩
  have asked := still.confined (apart.now checked) (Set.notMem_empty _)
  exact asked.confined (Disk.confined_report valid replaced) (by decide)

/-- A check leaves all reports as they are. -/
theorem reportsShow_of_checked {result : Except HistoryError (List LocalizedFile)}
    (runs : Runs (installation.tracks disk) (Staleness.checkLanguage layout language) state
      result later) :
    disk.ReportsShow installation.folder [] state later :=
  .of_confined (apart.confined_run (Staleness.touches_checkLanguage layout language) runs)
    (EntryKind.reports_not_mem _)

/-- A language that was not reported leaves all reports as they are. -/
theorem reportsShow_of_error {error : RunError} {head : Option CommitId}
    (valid : LanguageCode.check language = .ok ())
    (runs : Runs (installation.serves disk)
      (reportLanguage (installation.settings layout patience) head language)
      state (.error error) later) :
    disk.ReportsShow installation.folder [] state later := by
  rcases runs_bind.1 runs with ⟨_, fails, -⟩ | ⟨files, checked, checks, rest⟩
  · obtain ⟨cause, ran, -⟩ := runs_askHistory_error.1 fails
    exact reportsShow_of_checked apart ran
  have quiet := reportsShow_of_checked apart (runs_askHistory_ok.1 checks)
  rcases runs_bind.1 rest with ⟨_, fails, -⟩ | ⟨now, told, asks, rest⟩
  · cases (runs_tell.1 fails).1
  obtain ⟨-, rfl⟩ := runs_tell.1 asks
  have asked : disk.ReportsShow installation.folder [] checked (disk.after .now checked) :=
    .of_confined (apart.now checked) (Set.notMem_empty _)
  rcases runs_bind.1 rest with ⟨_, fails, -⟩ | ⟨⟨⟩, written, -, rest⟩
  · obtain ⟨fault, ran, -⟩ := runs_act_error.1 fails
    exact (quiet.trans asked).trans (Disk.reportsShow_of_refused valid ran)
  · cases (runs_pure.1 rest).1

/-- A language that was reported shows its report, and all others are as they were. -/
theorem Reported.reportsShow {report : Report} (valid : LanguageCode.check language = .ok ())
    (reported : Reported installation disk layout main language state report later) :
    disk.ReportsShow installation.folder [report] state later := by
  obtain ⟨checked, given, -, replaced⟩ := reported.written
  have quiet := reportsShow_of_checked apart given.given
  have asked : disk.ReportsShow installation.folder [] checked (disk.after .now checked) :=
    .of_confined (apart.now checked) (Set.notMem_empty _)
  exact (quiet.trans asked).trans (Disk.reportsShow_of_replaced valid reported.isOf replaced)

/-- Languages that were reported one after the other show their reports. -/
theorem reportsShow_of_chain {languages : List String} {reports : List Report}
    (valid : ∀ language ∈ languages, LanguageCode.check language = .ok ())
    (chain : Chain (Reported installation disk layout main) languages state reports later) :
    disk.ReportsShow installation.folder reports state later := by
  induction chain with
  | nil state => exact .of_same fun _ => rfl
  | cons first rest ih =>
    obtain ⟨isCode, areCodes⟩ := List.forall_mem_cons.1 valid
    exact (first.reportsShow apart isCode).trans (ih areCodes)

/-- Rounds of reporting report what they check against the main branch that is kept. -/
theorem reported_of_rounds {languages : List String} {files : List Path}
    (valid : ∀ language ∈ languages, LanguageCode.check language = .ok ())
    (holds : disk.HoldsMain installation.folder main state)
    (rounds : Rounds (installation.serves disk)
      (reportLanguage (installation.settings layout patience) (main.head?.map (·.id)))
      languages state files later) :
    files = languages.map installation.folder.report ∧
      ∃ reports, Chain (Reported installation disk layout main) languages state reports later := by
  induction rounds with
  | nil state => exact ⟨rfl, [], .nil state⟩
  | cons first rest ih =>
    obtain ⟨isCode, areCodes⟩ := List.forall_mem_cons.1 valid
    obtain ⟨rfl, ⟨report, reported⟩, still⟩ := exists_reported apart isCode holds first
    obtain ⟨rfl, reports, chain⟩ := ih areCodes still
    exact ⟨rfl, report :: reports, .cons reported chain⟩

/-- A loop over the languages that comes to its end has reported all of them. -/
theorem reported_of_loop {languages : List String} {files : List Path}
    (valid : ∀ language ∈ languages, LanguageCode.check language = .ok ())
    (holds : disk.HoldsMain installation.folder main state)
    (loops : Runs (installation.serves disk)
      (languages.mapM (reportLanguage (installation.settings layout patience)
        (main.head?.map (·.id)))) state (.ok files) later) :
    files = languages.map installation.folder.report ∧
      ∃ reports, Chain (Reported installation disk layout main) languages state reports later := by
  rcases runs_mapM loops with ⟨_, ⟨⟩, rounds⟩ | ⟨_, _, _, _, _, _, -, -, -, ⟨⟩⟩
  exact reported_of_rounds apart valid holds rounds

/-- A loop over the languages that fails has reported those before the one that it failed at. -/
theorem reported_of_loop_error {languages : List String} {error : RunError}
    (valid : ∀ language ∈ languages, LanguageCode.check language = .ok ())
    (holds : disk.HoldsMain installation.folder main state)
    (fails : Runs (installation.serves disk)
      (languages.mapM (reportLanguage (installation.settings layout patience)
        (main.head?.map (·.id)))) state (.error error) later) :
    ∃ front language back reports reached, languages = front ++ language :: back ∧
      Chain (Reported installation disk layout main) front state reports reached ∧
      Runs (installation.serves disk)
        (reportLanguage (installation.settings layout patience) (main.head?.map (·.id)) language)
        reached (.error error) later ∧
      disk.ReportsShow installation.folder reports state later := by
  rcases runs_mapM fails with ⟨_, ⟨⟩, -⟩ |
    ⟨front, language, back, values, reached, _, parts, rounds, stops, ⟨⟩⟩
  have codes : ∀ item ∈ front, LanguageCode.check item = .ok () := fun item mem =>
    valid item (parts ▸ List.mem_append_left _ mem)
  have isCode : LanguageCode.check language = .ok () :=
    valid language (parts ▸ List.mem_append_right _ List.mem_cons_self)
  obtain ⟨-, reports, reported⟩ := reported_of_rounds apart codes holds rounds
  have shown := (reportsShow_of_chain apart codes reported).trans
    (reportsShow_of_error apart isCode stops)
  rw [List.append_nil] at shown
  exact ⟨front, language, back, reports, reached, parts, reported, stops, shown⟩

/-! ### The lock -/

/-- Taking the lock changes nothing beside the locks. -/
theorem confined_take {result : Except Fault Unit}
    (runs : Runs disk.handle (Lock.take (lockFile installation.folder) patience) state
      result later) :
    disk.Confined installation.folder {bytes "locks"} state later := by
  let changes := disk.Changes installation.folder {bytes "locks"}
  have prepares : (Lock.prepare (lockFile installation.folder)).Asks changes := by
    unfold Lock.prepare
    cases (lockFile installation.folder).parent? with
    | none => exact .pure _
    | some directory => exact ⟨Disk.changes_makeDirectories directory, fun _ => trivial⟩
  have locks : (Host.lock (lockFile installation.folder) (some patience)).Asks changes :=
    ⟨apart.lock _, fun _ => trivial⟩
  have takes : (Lock.take (lockFile installation.folder) patience).Asks changes :=
    prepares.bind fun _ => locks.bind fun _ => .pure _
  have confined := Disk.confined_run takes (fun _ each => each) state
  rwa [show (Lock.take _ _).run.run disk.handle state = _ from runs] at confined

/-- Whoever has the lock has made the way to the cache directory. -/
theorem straight_of_taken
    (runs : Runs disk.handle (Lock.take (lockFile installation.folder) patience) state
      (.ok ()) later) :
    disk.Straight later installation.folder.root.components := by
  obtain ⟨⟨⟩, prepared, prepares, rest⟩ := runs_bind_ok.1 runs
  obtain ⟨told, locked, locks, rest⟩ := runs_bind_ok.1 rest
  obtain ⟨-, rfl⟩ := runs_pure.1 rest
  have straight := disk.straight_of_prepared installation.folder (congrArg Prod.fst prepares)
  rw [show (Lock.prepare _).run.run disk.handle state = _ from prepares] at straight
  have confined := apart.lock (some patience) prepared
  rw [show later = disk.after _ prepared from (congrArg Prod.snd locks).symm]
  exact confined.straight straight

/-! ### The whole run -/

omit apart in
/-- How a run goes on that has the lock, and which reports it writes. -/
inductive Worked (installation : Installation) (disk : Disk σ) (layout : Layout)
    (patience : Nat) (languages : List String) (held : σ) :
    Except RunError Summary → List Report → Prop where
  | unrefreshed {error : HistoryError} {failed : σ}
    (fails : Runs (installation.tracks disk) Refresh.run held (.error error) failed) :
    Worked installation disk layout patience languages held (.error (.history error)) []
  | unknown {outcome : Refresh.Outcome} {error : HistoryError} {refreshed failed : σ}
    (refreshes : Runs (installation.tracks disk) Refresh.run held (.ok outcome) refreshed)
    (fails : Runs (installation.tracks disk) History.mainBranch refreshed (.error error) failed) :
    Worked installation disk layout patience languages held (.error (.history error)) []
  | interrupted {outcome : Refresh.Outcome} {main : MainBranch} {before after : List String}
    {language : String} {reports : List Report} {error : RunError}
    {refreshed loaded reached failed : σ}
    (refreshes : Runs (installation.tracks disk) Refresh.run held (.ok outcome) refreshed)
    (looks : Runs (installation.tracks disk) History.mainBranch refreshed (.ok main) loaded)
    (parts : languages = before ++ language :: after)
    (reported : Chain (Reported installation disk layout main) before loaded reports reached)
    (fails : Runs (installation.serves disk)
      (reportLanguage (installation.settings layout patience) (main.head?.map (·.id)) language)
      reached (.error error) failed) :
    Worked installation disk layout patience languages held (.error error) reports
  | finished {outcome : Refresh.Outcome} {main : MainBranch} {reports : List Report}
    {refreshed loaded reached : σ}
    (refreshes : Runs (installation.tracks disk) Refresh.run held (.ok outcome) refreshed)
    (looks : Runs (installation.tracks disk) History.mainBranch refreshed (.ok main) loaded)
    (reported : Chain (Reported installation disk layout main) languages loaded reports reached) :
    Worked installation disk layout patience languages held
      (.ok ⟨outcome.fresh.length, outcome.changed.length,
        languages.map installation.folder.report⟩) reports

/-- How a run of valid languages ends, and which reports it writes. -/
inductive Ended (installation : Installation) (disk : Disk σ) (layout : Layout)
    (patience : Nat) (languages : List String) (state : σ) :
    Except RunError Summary → List Report → Prop where
  | unlocked {fault : Fault} {failed : σ}
    (fails : Runs disk.handle (Lock.take (lockFile installation.folder) patience) state
      (.error fault) failed) :
    Ended installation disk layout patience languages state
      (.error (.lock (lockFile installation.folder) fault)) []
  | worked {held : σ} {result : Except RunError Summary} {reports : List Report}
    (takes : Runs disk.handle (Lock.take (lockFile installation.folder) patience) state
      (.ok ()) held)
    (works : Worked installation disk layout patience languages held result reports) :
    Ended installation disk layout patience languages state result reports

variable {languages : List String} {result : Except RunError Summary}

omit apart in
/-- All reports of a run are made against one main branch. -/
theorem Ended.exists_main {reports : List Report}
    (ended : Ended installation disk layout patience languages state result reports) :
    ∃ main, ∀ report ∈ reports,
      ∃ start last, Reported installation disk layout main report.language start report last := by
  have made {main : MainBranch} {items : List String} {reports : List Report} {start last : σ}
      (chain : Chain (Reported installation disk layout main) items start reports last) :
      ∀ report ∈ reports, ∃ start last,
        Reported installation disk layout main report.language start report last := by
    intro report mem
    obtain ⟨language, start, last, reported⟩ := chain.exists_round mem
    obtain rfl := reported.isOf
    exact ⟨start, last, reported⟩
  cases ended with
  | unlocked => exact ⟨default, nofun⟩
  | worked takes works =>
    cases works with
    | unrefreshed | unknown => exact ⟨default, nofun⟩
    | interrupted _ _ _ reported | finished _ _ reported => exact ⟨_, made reported⟩

omit apart in
/-- A report counts the files that need attention. -/
theorem Reported.toNat_stale {report : Report} (fits : report.files.length < UInt64.size)
    (reported : Reported installation disk layout main language state report later) :
    report.stale.toNat =
      report.files.countP fun file => decide (file.status ≠ .unchanged) := by
  rw [reported.stale]
  exact UInt64.toNat_ofNat_of_lt' (List.countP_le_length.trans_lt fits)

variable (valid : ∀ language ∈ languages, LanguageCode.check language = .ok ())

include valid

/-- What a run does that has the lock, and what it makes of the reports. -/
theorem exists_worked {held : σ}
    (straight : disk.Straight held installation.folder.root.components)
    (runs : Runs (installation.serves disk)
      (whileLocked (installation.settings layout patience) languages) held result later) :
    ∃ reports, Worked installation disk layout patience languages held result reports ∧
      disk.ReportsShow installation.folder reports held later := by
  have spared {α : Type} {question : History α} {told : Except HistoryError α} {start last : σ}
      (asks : question.Asks (Tracking.Touches Set.univ))
      (ran : Runs (installation.tracks disk) question start told last) :
      disk.ReportsShow installation.folder [] start last :=
    .of_confined (apart.confined_run asks ran) (EntryKind.reports_not_mem _)
  rcases runs_bind.1 runs with ⟨_, fails, rfl⟩ | ⟨outcome, refreshed, refreshes, rest⟩
  · obtain ⟨cause, ran, rfl⟩ := runs_askHistory_error.1 fails
    exact ⟨[], .unrefreshed ran, spared Refresh.touches_run ran⟩
  have refreshes := runs_askHistory_ok.1 refreshes
  have first := spared Refresh.touches_run refreshes
  rcases runs_bind.1 rest with ⟨_, fails, rfl⟩ | ⟨main, loaded, looks, rest⟩
  · obtain ⟨cause, ran, rfl⟩ := runs_askHistory_error.1 fails
    exact ⟨[], .unknown refreshes ran, first.trans (spared History.touches_mainBranch ran)⟩
  have looks := runs_askHistory_ok.1 looks
  have before := first.trans (spared History.touches_mainBranch looks)
  have holds : disk.HoldsMain installation.folder main loaded :=
    apart.holdsMain ((apart.confined_run Refresh.touches_run refreshes).straight straight) looks
  rcases runs_bind.1 rest with ⟨error, fails, rfl⟩ | ⟨files, reached, loops, rest⟩
  · obtain ⟨front, language, back, reports, reached, parts, reported, stops, shown⟩ :=
      reported_of_loop_error apart valid holds fails
    exact ⟨reports, .interrupted refreshes looks parts reported stops, before.trans shown⟩
  · obtain ⟨rfl, reports, reported⟩ := reported_of_loop apart valid holds loops
    obtain ⟨rfl, rfl⟩ := runs_pure.1 rest
    exact ⟨reports, .finished refreshes looks reported,
      before.trans (reportsShow_of_chain apart valid reported)⟩

/-- How a run ends, and what it makes of the reports. -/
theorem exists_ended
    (runs : Runs (installation.serves disk)
      (once (installation.settings layout patience) languages) state result later) :
    ∃ reports, Ended installation disk layout patience languages state result reports ∧
      disk.ReportsShow installation.folder reports state later := by
  have codes : LanguageCode.checkAll languages = .ok () :=
    LanguageCode.checkAll_eq_ok_iff.2 fun language mem =>
      LanguageCode.check_eq_ok_iff.1 (valid language mem)
  have noLock : bytes "reports" ∉ ({bytes "locks"} : Set (List UInt8)) := by
    rw [Set.mem_singleton_iff]
    decide
  unfold once at runs
  rw [codes] at runs
  rcases runs_bind.1 runs with ⟨_, fails, rfl⟩ | ⟨⟨⟩, held, takes, rest⟩
  · obtain ⟨fault, ran, rfl⟩ := runs_act_error.1 fails
    exact ⟨[], .unlocked ran, .of_confined (confined_take apart ran) noLock⟩
  have takes : Runs disk.handle (Lock.take (lockFile installation.folder) patience) state
      (.ok ()) held := runs_act_ok.1 takes
  obtain ⟨told, done, ran, rest⟩ := runs_result_bind.1 rest
  obtain ⟨reports, works, shown⟩ :=
    exists_worked apart valid (straight_of_taken apart takes) ran
  rcases runs_bind.1 rest with ⟨_, fails, -⟩ | ⟨⟨⟩, released, releases, rest⟩
  · cases (runs_tell.1 fails).1
  obtain ⟨-, rfl⟩ := runs_tell.1 releases
  have before : disk.ReportsShow installation.folder [] state held :=
    .of_confined (confined_take apart takes) noLock
  have after : disk.ReportsShow installation.folder [] done
      (disk.after (.unlock (lockFile installation.folder)) done) :=
    .of_confined (apart.unlock done) (Set.notMem_empty _)
  have all := (before.trans shown).trans after
  rw [List.append_nil] at all
  refine ⟨reports, ?_⟩
  cases told with
  | ok summary =>
    obtain ⟨rfl, rfl⟩ := runs_pure.1 rest
    exact ⟨.worked takes works, all⟩
  | error error =>
    obtain ⟨rfl, rfl⟩ := runs_throw.1 rest
    exact ⟨.worked takes works, all⟩

end Run

end

/-! ## All together -/

/-- The reports of a run, whatever the repository and the disk answer, wherever it fails or is
cancelled, and whatever is in the cache.

A run of languages one of which has no valid code does nothing. Any other run ends in one of the
ways of `Ended`, and has written some reports then: none without the lock, a refresh and a main
branch, those of the languages before the one that could not be reported, or those of all languages,
whose places it gives in their order. The report of each language is the last one that was written
for it, or as it was, and nothing else that was among the reports has changed.

Each report that was written is read as itself, is of its language, counts its stale files, and
shows the head of the main branch that its files were compared on, which is the same for all of
them. -/
theorem Run.reports_of_run {σ : Type} (disk : Disk σ) (installation : Installation)
    (apart : installation.Apart disk) (layout : Layout) (patience : Nat)
    (languages : List String) (state : σ) :
    let program := (Run.once (installation.settings layout patience) languages).run.resolveFirst
      installation.meaning
    let result := (program.run disk.handle state).1
    let later := (program.run disk.handle state).2
    ((∃ language ∈ languages, LanguageCode.check language ≠ .ok ()) →
      ∃ invalid, program = .done (.error (.language invalid))) ∧
    ((∀ language ∈ languages, LanguageCode.check language = .ok ()) →
      ∃ reports, Ended installation disk layout patience languages state result reports ∧
        (∀ language, LanguageCode.check language = .ok () →
          (installation.folder.report language).components = installation.folder.root.components ++
            [.name (bytes "reports"), .name (bytes (language ++ ".json"))] ∧
          disk.report installation.folder later language =
            ((Report.latest? reports language).map fun report =>
              bytes (JsonForm.indented report)).or
                (disk.report installation.folder state language)) ∧
        (∀ rest, disk.files state (disk.reportsPlace installation.folder rest) ≠ none →
          (∀ report ∈ reports, disk.reportsPlace installation.folder rest ≠
            disk.leads (installation.folder.report report.language)) →
          disk.files later (disk.reportsPlace installation.folder rest) =
            disk.files state (disk.reportsPlace installation.folder rest)) ∧
        ∃ main : MainBranch, ∀ report ∈ reports,
          JsonForm.decode? Report (bytes (JsonForm.indented report)) = some report ∧
          report.head = main.head?.map (·.id) ∧
          (∃ start checked, Checked installation disk layout main report.language start
            report.files checked) ∧
          (report.files.length < UInt64.size → report.stale.toNat =
            report.files.countP fun file => decide (file.status ≠ .unchanged))) := by
  intro program result later
  constructor
  · rintro ⟨language, mem, invalid⟩
    have refused : LanguageCode.checkAll languages ≠ .ok () := fun valid =>
      invalid (LanguageCode.check_eq_ok_iff.2
        (LanguageCode.checkAll_eq_ok_iff.1 valid language mem))
    cases checked : LanguageCode.checkAll languages with
    | ok value => exact absurd checked refused
    | error error =>
      refine ⟨error, ?_⟩
      show (Run.once _ languages).run.resolveFirst _ = _
      unfold Run.once
      rw [checked]
      rfl
  · intro valid
    have runs : Runs (installation.serves disk)
        (once (installation.settings layout patience) languages) state result later :=
      Program.run_resolveFirst.symm
    obtain ⟨reports, ended, shown⟩ := exists_ended apart valid runs
    obtain ⟨main, made⟩ := ended.exists_main
    refine ⟨reports, ended, fun language isCode => ⟨?_, shown.shown isCode⟩,
      fun rest there other => shown.others there other, main, fun report mem => ?_⟩
    · exact installation.folder.components_report isCode
    · obtain ⟨start, last, reported⟩ := made report mem
      obtain ⟨checked, given, -⟩ := reported.written
      exact ⟨JsonForm.decode_indented report, reported.head, ⟨start, checked, given⟩,
        fun fits => reported.toNat_stale fits⟩

/-- A small machine with a working copy of one commit, in which a Japanese file was never committed.
The cache directory has a German report, and a directory in the place of the French one. -/
def Machine.pressroom : {machine : Machine // machine.Orderly [] 4242} :=
  ⟨{ files := ⟨[([bytes "c"], .directory), ([bytes "c", bytes "reports"], .directory),
       ([bytes "c", bytes "reports", bytes "de.json"], .file [1]),
       ([bytes "c", bytes "reports", bytes "fr.json"], .directory),
       ([bytes "r"], .directory), ([bytes "r", bytes "content"], .directory),
       ([bytes "r", bytes "content", bytes "ja"], .directory),
       ([bytes "r", bytes "content", bytes "ja", bytes "a.md"], .file [])]⟩
     directory := []
     clock := 7
     rules := some [
       ⟨"log --format=%H %cI %s --first-parent main --",
         ⟨0, bytes "1234567 now First\n", []⟩, none⟩,
       ⟨"rev-parse", ⟨0, bytes "1234567\n", []⟩, none⟩, ⟨"", ⟨0, [], []⟩, none⟩] },
    rfl, rfl, FileTree.connected_of_entries (by decide +kernel), rfl⟩

set_option maxRecDepth 100000 in
/-- In the pressroom the Japanese report is written, the run fails at the French one, and the German
one is left as it was. -/
theorem Run.reports_of_run_pressroom :
    let disk := Machine.disk [] 4242
    let installation := GitRepository.installed ⟨Path.ofText "/r/", "origin", "main", true⟩
      ⟨Path.ofText "c"⟩
    let program := (Run.once (installation.settings .standard 0) ["ja", "fr"]).run.resolveFirst
      installation.meaning
    let result := (program.run disk.handle Machine.pressroom).1
    let later := (program.run disk.handle Machine.pressroom).2
    result = .error (.report (Path.ofText "c/reports/fr.json") .isADirectory) ∧
      ∃ reports, Ended installation disk .standard 0 ["ja", "fr"] Machine.pressroom result reports ∧
        (∃ report ∈ reports, report.language = "ja" ∧
          disk.report installation.folder later "ja" =
            some (bytes (JsonForm.indented report))) ∧
        disk.report installation.folder later "de" = some [1] := by
  intro disk installation program result later
  have apart : installation.Apart disk := Machine.apart_installed [] 4242 _ _
  have codes : ∀ language ∈ ["ja", "fr"], LanguageCode.check language = .ok () := by
    decide +kernel
  obtain ⟨reports, ended, shown, -⟩ :=
    (Run.reports_of_run disk installation apart .standard 0 ["ja", "fr"] Machine.pressroom).2 codes
  have seen : result = .error (.report (Path.ofText "c/reports/fr.json") .isADirectory) ∧
      disk.report installation.folder later "ja" ≠ none ∧
      disk.report installation.folder later "de" = some [1] := by
    decide +kernel
  have absent : disk.report installation.folder Machine.pressroom "ja" = none := by decide +kernel
  have japanese := (shown "ja" (codes "ja" (by decide))).2
  rw [absent, Option.or_none] at japanese
  refine ⟨seen.1, reports, ended, ?_, seen.2.2⟩
  cases found : Report.latest? reports "ja" with
  | none =>
    rw [found] at japanese
    exact absurd japanese seen.2.1
  | some report =>
    rw [found] at japanese
    obtain ⟨isIn, isOf⟩ := Report.of_latest? found
    exact ⟨report, isIn, isOf, japanese⟩

end LocaleWatch
