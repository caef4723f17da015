import LocaleWatch.Path

/-!
# Runs of the version-control program

Every query runs the program in the working copy with the same precautions: no hooks, file
names as they are, no large-file downloads and no questions on the terminal.

Only what has to be known before the first run is asked of the program's library: where the
working copy is and which reference is checked out.
-/

namespace LocaleWatch

/-- A run of the version-control program. -/
inductive GitCommand where
  | version
  | within (workingCopy : Path) (arguments : List String)
  deriving DecidableEq, Repr

namespace GitCommand

/-- The arguments that come before those of a run in a working copy. -/
def precautions (workingCopy : Path) : List (List UInt8) :=
  ["-c", "core.hooksPath=", "-c", "core.quotePath=false", "-C"].map Text.bytes ++
    [workingCopy.bytes]

/-- All arguments of a run. -/
def arguments : GitCommand → List (List UInt8)
  | .version => [Text.bytes "--version"]
  | .within workingCopy arguments => precautions workingCopy ++ arguments.map Text.bytes

/-- The variables that a run adds to its environment. -/
def environment : GitCommand → List (String × String)
  | .version => []
  | .within _ _ => [("GIT_LFS_SKIP_SMUDGE", "1"), ("GIT_TERMINAL_PROMPT", "0")]

end GitCommand

/-- Why the version-control library gave no answer: there is no repository, or another reason. -/
inductive LibraryFault where
  | notFound
  | other
  deriving DecidableEq, Repr

/-- What a run of the version-control program left. -/
structure GitOutput where
  status : Nat
  output : List UInt8
  complaint : List UInt8
  deriving DecidableEq, Repr

end LocaleWatch
