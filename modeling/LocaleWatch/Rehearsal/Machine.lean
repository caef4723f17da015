import LocaleWatch.FileTree.Access
import LocaleWatch.Git.Library

/-!
# A machine to rehearse on

A machine holds all that a program asks of the system: files, locks, the token, a clock, a
console, and a version-control program that answers by rules. A program that runs on it
changes nothing else, and what it did can be looked up afterwards.
-/

namespace LocaleWatch

/-- A rule for the answers of the version-control program. -/
structure GitRule where
  start : String
  answer : GitOutput
  /-- How often the rule can still be used; none if there is no limit. -/
  uses : Option Nat
  deriving DecidableEq, Repr

namespace GitRule

/-- The answer when no rule fits. -/
def noRule : GitOutput := ⟨128, [], Text.bytes "fatal: unscripted\n"⟩

/-- The words that rules are compared with. -/
def words : GitCommand → String
  | .version => "--version"
  | .within _ arguments => " ".intercalate arguments

/-- The answer of the first rule that fits and can be used, and the rules afterwards. -/
def answerTo (words : String) : List GitRule → GitOutput × List GitRule
  | [] => (noRule, [])
  | rule :: rest =>
    if rule.start.toList.isPrefixOf words.toList && rule.uses ≠ some 0 then
      (rule.answer, { rule with uses := rule.uses.map (· - 1) } :: rest)
    else
      let (answer, rest) := answerTo words rest
      (answer, rule :: rest)

end GitRule

/-- A machine. -/
structure Machine where
  files : FileTree
  directory : Location
  locked : List Location := []
  /-- The files that others have locked until they see a notice. -/
  lockedByOthers : List Location := []
  isCancelled : Bool := false
  process : Nat := 4242
  serial : UInt64 := 0
  clock : UInt64 := 0
  rules : Option (List GitRule) := some []
  runs : List GitCommand := []
  printed : List String := []
  noticed : List String := []
  deriving DecidableEq, Repr

namespace Machine

/-- Run the version-control program. -/
def git (command : GitCommand) (machine : Machine) : Except Fault GitOutput × Machine :=
  if command.arguments.any (·.contains 0) then (.error .nulInArgument, machine)
  else
    match machine.rules with
    | none => (.error .notFound, machine)
    | some rules =>
      let (answer, rules) := GitRule.answerTo (GitRule.words command) rules
      (.ok answer, { machine with rules := some rules, runs := command :: machine.runs })

/-- Change the files, or fail and leave them. -/
def change (result : Except Fault FileTree) (machine : Machine) : Except Fault Unit × Machine :=
  match result with
  | .ok files => (.ok (), { machine with files })
  | .error fault => (.error fault, machine)

/-- What stands at a path. -/
def kind (path : Path) (machine : Machine) : Except Fault FileKind :=
  match machine.files.entry? machine.directory path with
  | .ok (some (.file _)) => .ok .file
  | .ok (some .directory) => .ok .directory
  | .ok none => .error .notFound
  | .error fault => .error fault

/-- How its files are looked at. -/
def view (machine : Machine) : FileView Id where
  kind path := machine.kind path
  resolve path := (machine.files.existing machine.directory path).map Location.path
  read path := machine.files.read machine.directory path

/-- Lock a file. Nobody else goes on while a program waits, so a lock that is not free
stays so. -/
def lock (file : Path) (patience : Option Nat) (machine : Machine) :
    Except Fault Bool × Machine :=
  match machine.files.openFile machine.directory file with
  | .error fault => (.error fault, machine)
  | .ok (location, files) =>
    let machine := { machine with files }
    if machine.locked.contains location || machine.lockedByOthers.contains location then
      match patience with
      | some patience => (.error (.timedOut patience), machine)
      | none => (.ok false, machine)
    else (.ok true, { machine with locked := location :: machine.locked })

/-- Release the lock on a file. -/
def unlock (file : Path) (machine : Machine) : Machine :=
  match machine.files.locate machine.directory file with
  | .error _ => machine
  | .ok location => { machine with locked := machine.locked.erase location }

/-- How a machine answers. -/
def handle : Program.Handler Host Machine
  | .isCancelled, machine => (machine.isCancelled, machine)
  | .cancel, machine => ((), { machine with isCancelled := true })
  | .git command, machine => machine.git command
  | .workingCopy place, machine => ((machine.view.workingCopy place).run, machine)
  | .head place, machine => ((machine.view.head place).run, machine)
  | .kind path, machine => (machine.kind path, machine)
  | .read file, machine => (machine.files.read machine.directory file, machine)
  | .walk directory, machine => (machine.files.walk machine.directory directory, machine)
  | .makeDirectories directory, machine =>
    let (result, files) := machine.files.makeDirectories machine.directory directory
    (result, { machine with files })
  | .createNew file, machine =>
    machine.change (machine.files.createNew machine.directory file)
  | .write file bytes, machine =>
    machine.change (machine.files.write machine.directory file bytes)
  | .sync _, machine => (.ok (), machine)
  | .rename source target, machine =>
    machine.change (machine.files.rename machine.directory source target)
  | .remove file, machine => machine.change (machine.files.remove machine.directory file)
  | .ticket, machine =>
    ((machine.process, machine.serial), { machine with serial := machine.serial + 1 })
  | .lock file patience, machine => machine.lock file patience
  | .unlock file, machine => ((), machine.unlock file)
  | .now, machine => (machine.clock, machine)
  | .print line, machine => ((), { machine with printed := line :: machine.printed })
  | .notice line, machine =>
    ((), { machine with noticed := line :: machine.noticed, lockedByOthers := [] })

/-- Run a program on a machine. -/
def run {α : Type} (program : Program Host α) (machine : Machine) : α × Machine :=
  program.run handle machine

end Machine

end LocaleWatch
