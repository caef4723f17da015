import LocaleWatch.CommandLine.Arguments
import LocaleWatch.Watch

/-!
# What the commands do

Every command but `doctor` and `watch` takes the lock that runs share, opens the working
copy, asks its question, and prints the answer. What goes wrong is printed as one line
after `Error: `, and the exit status is 1.
-/

namespace LocaleWatch

namespace CommandLine

/-- Why a command fails. -/
inductive CommandError where
  | lock (fault : Fault)
  | opening (error : RepositoryError)
  | history (error : HistoryError)
  | run (error : RunError)
  | noInterval
  deriving DecidableEq, Repr

/-- The wording of an error. -/
def CommandError.message : CommandError → String
  | .lock fault => fault.message
  | .opening error => error.message
  | .history error => error.message
  | .run error => error.message
  | .noInterval => "interval must be at least one second"

/-- A command that is being carried out. -/
abbrev Task (α : Type) : Type := Attempt Host CommandError α

/-- Take the lock that runs share; if it is not free, say so and wait for it. -/
def takeLock (file : Path) : Task Unit := do
  if !(← Attempt.mapError .lock (Lock.tryTake file)) then
    Host.notice "Waiting for another refresh to finish..."
    Attempt.mapError .lock (Lock.take file Lock.patience)

/-- Do something while holding the lock that runs share. -/
def withLock (folder : CacheFolder) (task : Task Unit) : Task Unit := do
  let file := Run.lockFile folder
  takeLock file
  let result ← Attempt.result (δ := CommandError) task
  Host.unlock file
  match result with
  | .ok () => return ()
  | .error error => throw error

/-- Open the working copy. -/
def openCopy (options : Options) : Task GitRepository :=
  Attempt.mapError .opening
    (GitRepository.openAt options.place options.remote options.branch)

/-- Ask a question about history while holding the lock, and print lines about the
answer. -/
def answer {α : Type} (options : Options) (folder : CacheFolder) (question : History α)
    (lines : α → List String) : Task Unit :=
  withLock folder do
    let repository ← openCopy options
    let value ← Attempt.mapError .history (repository.askHistory folder question)
    (lines value).forM fun line => Host.print line

/-- The lines about a refresh. -/
def refreshLines (outcome : Refresh.Outcome) : List String :=
  if outcome.fresh.isEmpty then ["Already up to date"]
  else
    ["Pulled " ++ toString outcome.fresh.length ++ " commits"] ++
      outcome.fresh.map (fun commit => "  " ++ commit.label) ++
      ["Invalidated " ++ toString outcome.changed.length ++ " files"]

/-- The states of the named files of a language, or of all its files. -/
def check (layout : Layout) (language : String) (paths : List String) :
    History (List LocalizedFile) :=
  if paths.isEmpty then Staleness.checkLanguage layout language
  else Staleness.checkFiles layout language paths

/-- Whether a commit is on the main branch, and if not, its merge commit. -/
def mergeQuestion (commit : CommitId) : History (Bool × Option Commit) := do
  if ← History.isOnMain commit then return (true, none)
  return (false, ← History.merge commit)

/-- The line about a commit that is on the main branch. -/
def onMainLine (commit : CommitId) : String := commit.text ++ " is on the main branch"

/-- The line about a fork commit. -/
def forkLine (commit : CommitId) : Option Commit → String
  | some fork => fork.label
  | none => onMainLine commit

/-- The line about a merge commit. -/
def mergeLine (commit : CommitId) : Bool × Option Commit → String
  | (true, _) => onMainLine commit
  | (false, some merge) => merge.label
  | (false, none) => commit.text ++ " is not merged yet"

/-- A line that tells the state of something. -/
def stateLine (state subject finding : String) : String :=
  "[" ++ state ++ "] " ++ subject ++ ": " ++ finding

/-- Check that all that is needed is there. -/
def doctor (options : Options) (folder : CacheFolder) : Task Unit := do
  Host.print "l10n-tracker System Check"
  Host.print ""
  let hasGit ← match ← Attempt.result (Host.git .version) with
    | .ok done => pure (done.status = 0 : Bool)
    | .error _ => pure false
  Host.print (if hasGit then stateLine "OK" "git" "available"
    else stateLine "FAIL" "git" "not found")
  match ← Attempt.result (GitRepository.openAt options.place options.remote options.branch) with
  | .ok repository =>
    Host.print (stateLine "OK" "Repository" (repository.workingCopy.display ++
      " (main branch " ++ repository.branch ++ ")"))
  | .error error => Host.print (stateLine "FAIL" "Repository" error.message)
  let hasCache ← match ← Attempt.result (Host.isThere folder.root) with
    | .ok isThere => pure isThere
    | .error _ => pure false
  Host.print (stateLine (if hasCache then "OK" else "INFO") "Cache dir" folder.root.display)
  let file := Run.lockFile folder
  match ← Attempt.result (Lock.tryTake file) with
  | .ok true =>
    Host.unlock file
    Host.print (stateLine "OK" "Refresh lock" "free")
  | .ok false => Host.print (stateLine "INFO" "Refresh lock" "held by a running refresh")
  | .error fault => Host.print (stateLine "FAIL" "Refresh lock" fault.message)

/-- How a command ends. -/
inductive Conclusion where
  | exit (status : Nat)
  | runs (repository : GitRepository) (settings : Run.Settings) (languages : List String)
    (interval : Nat)
  deriving DecidableEq, Repr

/-- Carry out a command. `folder` is the user's own cache directory. -/
def perform (options : Options) (folder : CacheFolder) (command : Command) : Task Conclusion := do
  let folder : CacheFolder := (options.cacheDirectory.map CacheFolder.mk).getD folder
  match command with
  | .refresh => answer options folder Refresh.run refreshLines
  | .check language paths =>
    answer options folder (check options.layout language paths) fun states =>
      [JsonForm.indented states]
  | .fork commit =>
    answer options folder (History.fork commit) fun fork => [forkLine commit fork]
  | .merge commit =>
    answer options folder (mergeQuestion commit) fun found => [mergeLine commit found]
  | .doctor => doctor options folder
  | .watch interval languages =>
    if interval = 0 then throw .noInterval
    let place : Watch.Place := ⟨options.place, options.remote, options.branch⟩
    let repository ← Attempt.mapError .run (Watch.prepare place languages)
    return .runs repository { layout := options.layout, folder } languages interval
  return .exit 0

/-- Carry out a command and print what went wrong. -/
def run (options : Options) (folder : CacheFolder) (command : Command) :
    Program Host Conclusion := do
  match ← (perform options folder command).run with
  | .ok conclusion => return conclusion
  | .error error =>
    Program.ask (I := Host) (.notice ("Error: " ++ error.message)) .done
    return .exit 1

end CommandLine

end LocaleWatch
