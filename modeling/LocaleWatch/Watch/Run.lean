import LocaleWatch.Cache.Folder
import LocaleWatch.Language
import LocaleWatch.Lock
import LocaleWatch.Refresh
import LocaleWatch.Replacement
import LocaleWatch.Report
import LocaleWatch.Staleness

/-!
# One run

A run takes the lock that all runs with the same cache share, refreshes, and writes a
report for each language. All reports of a run show the same head of the main branch. A
run that fails keeps the reports it has written so far and leaves the others as they were.
-/

namespace LocaleWatch

/-- What a run asks: history, and the system for its lock and its reports. -/
abbrev Service : Interface := Tracking.sum Host

/-- Why a run, or a request for one, fails. -/
inductive RunError where
  | opening (error : RepositoryError)
  | history (error : HistoryError)
  | language (error : InvalidLanguage)
  | lock (file : Path) (fault : Fault)
  | report (file : Path) (fault : Fault)
  | workerGone
  deriving DecidableEq, Repr

/-- The wording of an error. -/
def RunError.message : RunError → String
  | .opening error => "failed to open repository: " ++ error.message
  | .history error => error.message
  | .language error => error.message
  | .lock file fault =>
    "failed to acquire refresh lock " ++ file.display ++ ": " ++ fault.message
  | .report file fault => "failed to write report " ++ file.display ++ ": " ++ fault.message
  | .workerGone => "worker is not running"

namespace Run

/-- A part of a run. -/
abbrev Step (α : Type) : Type := Attempt Service RunError α

/-- Ask a question about history. -/
def askHistory {α : Type} (question : History α) : Step α :=
  (question.mapError .history).inFirst

/-- Act on the system. -/
def act {α : Type} (name : Fault → RunError) (action : Action α) : Step α :=
  (action.mapError name).inSecond

/-- What a run works on. -/
structure Settings where
  layout : Layout
  folder : CacheFolder
  /-- How long to wait for the lock, in milliseconds. -/
  patience : Nat := Lock.patience
  deriving DecidableEq, Repr

/-- The file whose lock runs share. -/
def lockFile (folder : CacheFolder) : Path := folder.lock "refresh"

/-- What a run did. -/
structure Summary where
  fresh : Nat
  changed : Nat
  reports : List Path
  deriving DecidableEq, Repr

/-- Check one language and write its report. -/
def reportLanguage (settings : Settings) (head : Option CommitId) (language : String) :
    Step Path := do
  let files ← askHistory (Staleness.checkLanguage settings.layout language)
  let now ← Attempt.inSecond Host.now
  let report := Report.ofFiles language now head files
  let file := settings.folder.report language
  act (.report file) (Replacement.run file (Text.bytes (JsonForm.indented report)))
  return file

/-- What a run does while it holds the lock. -/
def whileLocked (settings : Settings) (languages : List String) : Step Summary := do
  let outcome ← askHistory Refresh.run
  let main ← askHistory History.mainBranch
  let head := main.head?.map (·.id)
  let reports ← languages.mapM (reportLanguage settings head)
  return ⟨outcome.fresh.length, outcome.changed.length, reports⟩

/-- Refresh, and write a report for each language. -/
def once (settings : Settings) (languages : List String) : Step Summary := do
  match LanguageCode.checkAll languages with
  | .error error => throw (.language error)
  | .ok () =>
    let file := lockFile settings.folder
    act (.lock file) (Lock.take file settings.patience)
    let result ← Attempt.result (δ := RunError) (whileLocked settings languages)
    Attempt.inSecond (Host.unlock file)
    match result with
    | .ok summary => return summary
    | .error error => throw error

end Run

end LocaleWatch
