import LocaleWatch.Git.Command
import LocaleWatch.Listing
import LocaleWatch.Program

/-!
# What the tracker asks of the system

Files, locks, the version-control program and its library, a clock and a console, together with
the token that tells whether the run was cancelled. Each request is one step of the system: between
two of them the process may be stopped, and each may fail on its own.
-/

namespace LocaleWatch

/-- What may stand at a path. -/
inductive FileKind where
  | file
  | directory
  deriving DecidableEq, Repr

namespace Host

/-- A request to the system. -/
inductive Request where
  | isCancelled
  | cancel
  | git (command : GitCommand)
  /-- The root of the working copy of the repository at a place; none if it has none. -/
  | workingCopy (place : Path)
  /-- The full name of the reference to which `HEAD` leads in the repository at a place; none if
  the name is no text. -/
  | head (place : Path)
  | kind (path : Path)
  | read (file : Path)
  | walk (directory : Path)
  | makeDirectories (directory : Path)
  | createNew (file : Path)
  | write (file : Path) (bytes : List UInt8)
  | sync (file : Path)
  /-- Give a file another name, in place of the file that has it. -/
  | rename (source target : Path)
  | remove (file : Path)
  /-- The process's number and its next number; after the last one comes the first. -/
  | ticket
  /-- Lock a file, which is made if it is missing. With patience, in milliseconds, wait
  for it that long; without, see whether it is free. -/
  | lock (file : Path) (patience : Option Nat)
  | unlock (file : Path)
  | now
  | print (line : String)
  /-- Print a line to the user rather than to a program that reads the output. -/
  | notice (line : String)
  deriving Repr

/-- The answers to a request. -/
def Answer : Request → Type
  | .isCancelled => Bool
  | .git _ => Except Fault GitOutput
  | .workingCopy _ => Except LibraryFault (Option Path)
  | .head _ => Except LibraryFault (Option String)
  | .kind _ => Except Fault FileKind
  | .read _ => Except Fault (List UInt8)
  | .walk _ => Listing
  | .makeDirectories _ | .createNew _ | .write _ _ | .sync _ | .rename _ _ | .remove _ =>
    Except Fault Unit
  | .ticket => Nat × UInt64
  | .lock _ _ => Except Fault Bool
  | .now => UInt64
  | .cancel | .unlock _ | .print _ | .notice _ => Unit

end Host

/-- The interface of the system. -/
def Host : Interface := ⟨Host.Request, Host.Answer⟩

/-- A program on the system that may end with a fault. -/
abbrev Action (α : Type) : Type := Attempt Host Fault α

namespace Host

/-- Ask a request that the system does not refuse. -/
def tell {ε : Type} (r : Host.Request) : Attempt Host ε (Host.Answer r) :=
  .ofProgram (Program.ask (I := Host) r .done)

/-- Whether the run was cancelled. -/
def isCancelled {ε : Type} : Attempt Host ε Bool := tell .isCancelled

/-- Run the version-control program. -/
def git (command : GitCommand) : Action GitOutput :=
  .ofResult (Program.ask (I := Host) (.git command) .done)

/-- The root of the working copy at a place. -/
def workingCopy (place : Path) : Attempt Host LibraryFault (Option Path) :=
  .ofResult (Program.ask (I := Host) (.workingCopy place) .done)

/-- The full name of the reference that is checked out at a place. -/
def head (place : Path) : Attempt Host LibraryFault (Option String) :=
  .ofResult (Program.ask (I := Host) (.head place) .done)

/-- What stands at a path. -/
def kind (path : Path) : Action FileKind :=
  .ofResult (Program.ask (I := Host) (.kind path) .done)

/-- The bytes of a file. -/
def read (file : Path) : Action (List UInt8) :=
  .ofResult (Program.ask (I := Host) (.read file) .done)

/-- What stands at and below a directory. -/
def walk {ε : Type} (directory : Path) : Attempt Host ε Listing := tell (.walk directory)

/-- Make a directory and those above it that are missing. -/
def makeDirectories (directory : Path) : Action Unit :=
  .ofResult (Program.ask (I := Host) (.makeDirectories directory) .done)

/-- Make an empty file where nothing stands. -/
def createNew (file : Path) : Action Unit :=
  .ofResult (Program.ask (I := Host) (.createNew file) .done)

/-- Write all bytes of a file that was just made. -/
def write (file : Path) (bytes : List UInt8) : Action Unit :=
  .ofResult (Program.ask (I := Host) (.write file bytes) .done)

/-- Wait until a file's bytes are on the disk. -/
def sync (file : Path) : Action Unit :=
  .ofResult (Program.ask (I := Host) (.sync file) .done)

/-- Give a file another name. -/
def rename (source target : Path) : Action Unit :=
  .ofResult (Program.ask (I := Host) (.rename source target) .done)

/-- Remove a file. -/
def remove (file : Path) : Action Unit :=
  .ofResult (Program.ask (I := Host) (.remove file) .done)

/-- The process's number and its next number. -/
def ticket {ε : Type} : Attempt Host ε (Nat × UInt64) := tell .ticket

/-- Lock a file. -/
def lock (file : Path) (patience : Option Nat) : Action Bool :=
  .ofResult (Program.ask (I := Host) (.lock file patience) .done)

/-- Release the lock on a file. -/
def unlock {ε : Type} (file : Path) : Attempt Host ε Unit := tell (.unlock file)

/-- The seconds since the start of 1970. -/
def now {ε : Type} : Attempt Host ε UInt64 := tell .now

/-- Print a line. -/
def print {ε : Type} (line : String) : Attempt Host ε Unit := tell (.print line)

/-- Print a line to the user. -/
def notice {ε : Type} (line : String) : Attempt Host ε Unit := tell (.notice line)

/-- Whether anything stands at a path. -/
def isThere (path : Path) : Action Bool := do
  match ← Attempt.result (kind path) with
  | .ok _ => return true
  | .error .notFound => return false
  | .error fault => throw fault

end Host

end LocaleWatch
