import LocaleWatch.Host

/-!
# Locks between processes

Runs that share a working copy and a cache take turns: each holds the lock on one file
for as long as it works, and the system releases it if the process ends.
-/

namespace LocaleWatch

namespace Lock

/-- How long a run waits for another one, in milliseconds. -/
def patience : Nat := 5 * 60 * 1000

/-- Make the directory of a lock's file. -/
def prepare (file : Path) : Action Unit := do
  if let some directory := file.parent? then Host.makeDirectories directory

/-- Take a lock if it is free, and say whether it was. -/
def tryTake (file : Path) : Action Bool := do
  prepare file
  Host.lock file none

/-- Take a lock, and wait for it if it is not free. -/
def take (file : Path) (patience : Nat) : Action Unit := do
  prepare file
  let _ ← Host.lock file (some patience)

end Lock

end LocaleWatch
