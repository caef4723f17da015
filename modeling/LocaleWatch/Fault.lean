/-!
# System faults

What the operating system says when it refuses a request about a file or a program.

One fault is no word of the system. A program here comes to an end on every path, while a
search for a free name can go on for ever; `endless` stands in the place of the end that
such a search never comes to.
-/

namespace LocaleWatch

/-- Why the system refused a request. -/
inductive Fault where
  | notFound
  | notADirectory
  | isADirectory
  | alreadyExists
  | nameTooLong
  | nulInPath
  | nulInArgument
  | brokenPipe
  /-- Anything else, in the system's own words. -/
  | other (text : String)
  /-- A lock was not free within the time, given in milliseconds. -/
  | timedOut (patience : Nat)
  /-- No refusal: whoever tells it has not come to an end and never will. -/
  | endless
  deriving DecidableEq, Repr

/-- A number of milliseconds in the largest unit that is not larger than it, with the
rest as a fraction without trailing zeros. -/
def durationText (milliseconds : Nat) : String :=
  if milliseconds = 0 then "0ns"
  else if milliseconds < 1000 then toString milliseconds ++ "ms"
  else
    let rest := milliseconds % 1000
    let digits := (Nat.toDigits 10 (1000 + rest)).drop 1
    let digits := (digits.reverse.dropWhile (· = '0')).reverse
    toString (milliseconds / 1000) ++
      (if digits.isEmpty then "" else "." ++ String.ofList digits) ++ "s"

/-- The wording of a fault. -/
def Fault.message : Fault → String
  | .notFound => "No such file or directory (os error 2)"
  | .notADirectory => "Not a directory (os error 20)"
  | .isADirectory => "Is a directory (os error 21)"
  | .alreadyExists => "File exists (os error 17)"
  | .nameTooLong => "File name too long (os error 36)"
  | .nulInPath => "file name contained an unexpected NUL byte"
  | .nulInArgument => "nul byte found in provided data"
  | .brokenPipe => "broken pipe"
  | .other text => text
  | .timedOut patience => "refresh lock timed out after " ++ durationText patience
  | .endless => ""

end LocaleWatch
