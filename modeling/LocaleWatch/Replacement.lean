import LocaleWatch.Host

/-!
# Replacing a file at once

A file's new bytes are first written to a temporary file in the same directory, brought to
the disk, and then renamed to the file's name. Whoever reads the file finds the old bytes
or the new ones, also if the process is stopped on the way.

A temporary name holds the process's number and the next of the numbers that the process
counts, so it is taken only by what an earlier process of the same number has left; then the
next number is tried. The search for a free name has no bound. It is followed here for as many
names as one likes, and whoever has not found a free one by then is still searching, which is
neither success nor failure.
-/

namespace LocaleWatch

namespace Replacement

/-- The temporary file for a file, by the numbers of a ticket. -/
def temporary (file : Path) (ticket : Nat × UInt64) : Path :=
  file.withExtension ("tmp." ++ toString ticket.1 ++ "." ++ toString ticket.2)

/-- Write, sync and rename a temporary file that was just made. -/
def finish (temporary file : Path) (bytes : List UInt8) : Action Unit := do
  Host.write temporary bytes
  Host.sync temporary
  Host.rename temporary file

/-- Finish a replacement, and remove the temporary file if that fails. -/
def finishOrRemove (temporary file : Path) (bytes : List UInt8) : Action Unit := do
  match ← Attempt.result (finish temporary file bytes) with
  | .ok () => return ()
  | .error fault =>
    let _ ← Attempt.result (δ := Fault) (Host.remove temporary)
    throw fault

/-- Replace a file by way of the first temporary name that is free. Gives whether that was
done, or the search is still going on after it has tried `rounds` names. -/
def withFreeName (file : Path) (bytes : List UInt8) : (rounds : Nat) → Action Bool
  | 0 => return false
  | rounds + 1 => do
    let temporary := temporary file (← Host.ticket)
    match ← Attempt.result (Host.createNew temporary) with
    | .ok () =>
      finishOrRemove temporary file bytes
      return true
    | .error .alreadyExists => withFreeName file bytes rounds
    | .error fault => throw fault

/-- Put bytes into a file in place of what it held; the directories that lead to it are
made if they are missing. Gives whether that was done within `rounds` names. -/
def within (rounds : Nat) (file : Path) (bytes : List UInt8) : Action Bool := do
  if let some directory := file.parent? then Host.makeDirectories directory
  withFreeName file bytes rounds

/-- How many numbers a process has for temporary names. -/
def numbers : Nat := UInt64.size

/-- Put bytes into a file in place of what it held. Who has tried a name with every number that
there is goes on with the same names and finds them taken again. -/
def run (file : Path) (bytes : List UInt8) : Action Unit := do
  if !(← within numbers file bytes) then throw .endless

end Replacement

end LocaleWatch
