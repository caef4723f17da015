import Std.Time.DateTime.Timestamp
import LocaleWatch.CommandLine.Commands
import LocaleWatch.Git.Library

/-!
# The program

Carries out a command on the system that it runs on: requests for files, locks, time and
output go to the system. Programs of others cannot be started from here, so that every run
of the version-control program ends like one of a program that is not installed.
-/

namespace LocaleWatch

namespace Main

/-- What the process has to keep in mind. -/
structure Process where
  number : Nat
  serial : IO.Ref UInt64
  isCancelled : IO.Ref Bool
  locks : IO.Ref (List (Path × IO.FS.Handle))

/-- The fault of an error with this number. -/
def faultOfCode (code : UInt32) (details : String) : Fault :=
  match code with
  | 2 => .notFound
  | 17 => .alreadyExists
  | 20 => .notADirectory
  | 21 => .isADirectory
  | 32 => .brokenPipe
  | 36 => .nameTooLong
  | _ => .other (details ++ " (os error " ++ toString code ++ ")")

/-- The fault that an error of the system stands for. -/
def faultOf : IO.Error → Fault
  | .alreadyExists _ code details | .otherError code details | .resourceBusy code details
  | .resourceVanished code details | .unsupportedOperation code details
  | .hardwareFault code details | .unsatisfiedConstraints code details
  | .illegalOperation code details | .protocolError code details | .timeExpired code details
  | .interrupted _ code details | .noFileOrDirectory _ code details
  | .invalidArgument _ code details | .permissionDenied _ code details
  | .resourceExhausted _ code details | .inappropriateType _ code details
  | .noSuchThing _ code details => faultOfCode code details
  | .unexpectedEof => .other "unexpected end of file"
  | .userError text => .other text

/-- Do something with a path's text. -/
def onPath {α : Type} (path : Path) (action : String → IO α) : IO (Except Fault α) := do
  match path.text? with
  | none => return .error (.other "path is no text")
  | some text =>
    if path.bytes.contains 0 then return .error .nulInPath
    try return .ok (← action text)
    catch error => return .error (faultOf error)

/-- What stands at a place that a path leads to, links followed. -/
def kind (path : String) : IO FileKind := do
  let place := (← IO.currentDir) / path
  return if (← place.metadata).type == .dir then .directory else .file

/-- What stands at and below a directory. -/
partial def walk (path : Path) : IO Listing := do
  let entries ← onPath path fun text => do ((← IO.currentDir) / text).readDir
  match entries with
  | .error fault => return .unreadable fault
  | .ok entries =>
    let inner ← entries.toList.mapM fun entry => do
      let name := Text.bytes entry.fileName
      if (← entry.path.symlinkMetadata).type == .dir then
        return (name, ← walk (path.join ⟨name⟩))
      else return (name, .file)
    return .directory inner

/-- Try to lock a file until the time is over. -/
partial def waitForLock (handle : IO.FS.Handle) (patience pause waited : Nat) : IO Bool := do
  if ← handle.tryLock then return true
  if patience ≤ waited then return false
  IO.sleep (UInt32.ofNat pause)
  waitForLock handle patience (min (2 * pause) 500) (waited + pause)

/-- Lock a file, which is made if it is missing. -/
def lock (process : Process) (file : Path) (patience : Option Nat) : IO (Except Fault Bool) := do
  let opened ← onPath file fun text => IO.FS.Handle.mk text .append
  match opened with
  | .error fault => return .error fault
  | .ok handle =>
    if ← waitForLock handle (patience.getD 0) 10 0 then
      process.locks.modify ((file, handle) :: ·)
      return .ok true
    else
      match patience with
      | some patience => return .error (.timedOut patience)
      | none => return .ok false

/-- Release the lock on a file. -/
def unlock (process : Process) (file : Path) : IO Unit := do
  for (other, handle) in ← process.locks.get do
    if other = file then handle.unlock
  process.locks.modify (·.filter (·.1 ≠ file))

/-- How files are looked at. -/
def view : FileView IO where
  kind path := onPath path kind
  resolve path := onPath path fun text => return Path.ofText (← IO.FS.realPath text).toString
  read file := onPath file fun text => return (← IO.FS.readBinFile text).toList

/-- How the system answers a request. -/
def answer (process : Process) : (r : Host.Request) → IO (Host.Answer r)
  | .isCancelled => process.isCancelled.get
  | .cancel => process.isCancelled.set true
  | .git _ => return .error .notFound
  | .workingCopy place => (view.workingCopy place).run
  | .head place => (view.head place).run
  | .kind path => view.kind path
  | .read file => view.read file
  | .walk directory => walk directory
  | .makeDirectories directory =>
    if directory.bytes.isEmpty then return .ok ()
    else onPath directory fun text => IO.FS.createDirAll text
  | .createNew file => onPath file fun text => discard (IO.FS.Handle.mk text .writeNew)
  | .write file bytes => onPath file fun text => IO.FS.writeBinFile text ⟨bytes.toArray⟩
  | .sync file => onPath file fun text => do (← IO.FS.Handle.mk text .append).flush
  | .rename source target => do
    let renamed ← onPath source fun source =>
      onPath target fun target => IO.FS.rename source target
    return renamed.bind id
  | .remove file => onPath file fun text => IO.FS.removeFile text
  | .ticket => return (process.number, ← process.serial.modifyGet fun n => (n, n + 1))
  | .lock file patience => lock process file patience
  | .unlock file => unlock process file
  | .now => return UInt64.ofNat (← Std.Time.Timestamp.now).toSecondsSinceUnixEpoch.toInt.toNat
  | .print line => IO.println line
  | .notice line => IO.eprintln line

/-- Carry out a program. -/
def carryOut {α : Type} (process : Process) : Program Host α → IO α
  | .done value => return value
  | .ask request next => do carryOut process (next (← answer process request))

/-- Refresh and report again and again. -/
partial def watch (process : Process) (repository : GitRepository) (settings : Run.Settings)
    (languages : List String) (interval : Nat) : IO Unit := do
  let run := Watch.work settings [.run languages]
  carryOut process (run.resolveFirst (repository.meaning settings.folder))
  IO.sleep (UInt32.ofNat (interval * 1000))
  watch process repository settings languages interval

/-- The cache directory of the user. -/
def userFolder : IO CacheFolder := do
  let home := (← IO.getEnv "HOME").getD "/"
  let caches? := (← IO.getEnv "XDG_CACHE_HOME").map Path.ofText
  return CacheFolder.ofUser (Path.ofText home) caches?

/-- How the program is used. -/
def usage : String :=
  "usage: [--repo PATH] [--remote NAME] [--branch NAME] [--content-dir PATH]\n" ++
  "       [--origin LANGUAGE] [--cache-dir PATH] [-v] COMMAND\n" ++
  "\n" ++
  "  refresh                     fetch, drop stale cache entries and fast-forward\n" ++
  "  check LANGUAGE [PATH...]    print the states of a language's files as JSON\n" ++
  "  fork COMMIT                 show the main-branch commit that a commit forked from\n" ++
  "  merge COMMIT                show the main-branch commit that merged a commit\n" ++
  "  watch [--interval SECONDS] LANGUAGE...\n" ++
  "                              refresh and write reports until interrupted\n" ++
  "  doctor                      check that all that is needed is there"

end Main

end LocaleWatch

open LocaleWatch in
/-- Read the arguments and carry out the command. -/
def main (arguments : List String) : IO UInt32 := do
  let settings := CommandLine.Setting.all.map (·.environmentName)
  let environment ← settings.filterMapM fun name => do
    return (← IO.getEnv name).map fun value => (name, value)
  match CommandLine.read (List.lookup · environment) arguments with
  | .help =>
    IO.println Main.usage
    return 0
  | .misuse =>
    IO.eprintln Main.usage
    return 2
  | .said (options, command) =>
    let process : Main.Process :=
      ⟨(← IO.rand 1 4194304), ← IO.mkRef 0, ← IO.mkRef false, ← IO.mkRef []⟩
    match ← Main.carryOut process (CommandLine.run options (← Main.userFolder) command) with
    | .exit status => return UInt32.ofNat status
    | .runs repository settings languages interval =>
      Main.watch process repository settings languages interval
      return 0
