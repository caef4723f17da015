import LocaleWatch.Cache.Folder
import LocaleWatch.Commit
import LocaleWatch.Language
import LocaleWatch.Layout

/-!
# Arguments of the command line

```text
[options] refresh
[options] check LANGUAGE [PATH...]
[options] fork COMMIT
[options] merge COMMIT
[options] watch [--interval SECONDS] LANGUAGE...
[options] doctor
```

An option takes a value, as `--option value` or `--option=value`, and may be given once. A
value that looks like an option has to be given in the second form. `--` ends the options of
a command. An option that is not given has the value of its environment variable, if that
is set; the two are judged alike.

A request for help is granted unless something before it was found wrong.
-/

namespace LocaleWatch

namespace CommandLine

/-! ## Words -/

/-- How an argument is written. -/
inductive Word where
  | endOfOptions
  | long (name : String) (value : Option String)
  | short (letters : List Char)
  | plain (text : String)
  deriving DecidableEq, Repr

/-- How a text is written. -/
def Word.ofText (text : String) : Word :=
  match text.toList with
  | ['-', '-'] => .endOfOptions
  | '-' :: '-' :: rest =>
    match Text.cut? '=' rest with
    | some (name, value) => .long (String.ofList name) (some (String.ofList value))
    | none => .long (String.ofList rest) none
  | '-' :: c :: rest => .short (c :: rest)
  | _ => .plain text

/-! ## Options -/

/-- The options that take a value. -/
inductive Setting where
  | place
  | remote
  | branch
  | contentDirectory
  | origin
  /-- The cache directory. -/
  | cacheDirectory
  deriving DecidableEq, Repr

namespace Setting

/-- All of them. -/
def all : List Setting := [place, remote, branch, contentDirectory, origin, cacheDirectory]

/-- The name of an option. -/
def name : Setting → String
  | place => "repo"
  | remote => "remote"
  | branch => "branch"
  | contentDirectory => "content-dir"
  | origin => "origin"
  | cacheDirectory => "cache-dir"

/-- The environment variable of an option. -/
def environmentName : Setting → String
  | place => "L10N_REPO"
  | remote => "L10N_REMOTE"
  | branch => "L10N_BRANCH"
  | contentDirectory => "L10N_CONTENT_DIR"
  | origin => "L10N_ORIGIN"
  | cacheDirectory => "L10N_CACHE_DIR"

/-- The option of a name. -/
def ofName? (name : String) : Option Setting :=
  all.find? (·.name = name)

/-- Whether an option can have a value. -/
def accepts : Setting → String → Bool
  | place, value | cacheDirectory, value => !value.isEmpty
  | remote, _ | branch, _ => true
  | contentDirectory, value => (ContentDirectory.check (Path.ofText value)).toBool
  | origin, value => LanguageCode.isValid value

end Setting

/-- The options that were given before a command. -/
structure Given where
  values : List (Setting × String) := []
  isVerbose : Bool := false
  deriving DecidableEq, Repr

/-- Whether all values that were given can be had. -/
def Given.isAcceptable (given : Given) : Bool :=
  given.values.all fun (setting, value) => setting.accepts value

/-- What a command works with. -/
structure Options where
  place : Path
  remote : String
  branch : Option String
  layout : Layout
  cacheDirectory : Option Path
  isVerbose : Bool
  deriving DecidableEq, Repr

/-- The options of a command: those given, else those of the environment, else the usual
ones. None if a value cannot be had. -/
def Options.of? (given : Given) (environment : String → Option String) : Option Options :=
  let value? (setting : Setting) : Option String :=
    (given.values.lookup setting).or (environment setting.environmentName)
  if Setting.all.all fun setting => (value? setting).all setting.accepts then
    let directory := (value? .contentDirectory).getD "content"
    some {
      place := Path.ofText ((value? .place).getD ".")
      remote := (value? .remote).getD "origin"
      branch := value? .branch
      layout := Layout.below (Path.ofText directory)
        ((value? .origin).getD Layout.standard.origin)
      cacheDirectory := (value? .cacheDirectory).map Path.ofText
      isVerbose := given.isVerbose }
  else none

/-! ## Commands -/

/-- What the program can be told to do. -/
inductive Command where
  | refresh
  | check (language : String) (paths : List String)
  | fork (commit : CommitId)
  | merge (commit : CommitId)
  | watch (interval : Nat) (languages : List String)
  | doctor
  deriving DecidableEq, Repr

/-- Which arguments a command takes. -/
structure Grammar where
  least : Nat
  /-- The greatest number of plain arguments; none if there is no limit. -/
  most : Option Nat
  accepts : Nat → String → Bool
  hasInterval : Bool

/-- A count of seconds: decimal digits, perhaps after a plus sign, below 2^64. -/
def seconds? (text : String) : Option Nat :=
  let digits := match text.toList with
    | '+' :: rest => rest
    | characters => characters
  if digits.isEmpty || !digits.all Char.isDigit then none
  else
    let value := digits.foldl (fun value c => value * 10 + (c.toNat - 48)) 0
    if value < UInt64.size then some value else none

/-- The commands by their names, with what they take. -/
def grammar? : String → Option Grammar
  | "refresh" | "doctor" => some ⟨0, some 0, fun _ _ => false, false⟩
  | "check" => some ⟨1, none, fun n value => n ≠ 0 || LanguageCode.isValid value, false⟩
  | "fork" | "merge" =>
    some ⟨1, some 1, fun _ value => (CommitId.flaw? value).isNone, false⟩
  | "watch" => some ⟨1, none, fun _ value => LanguageCode.isValid value, true⟩
  | _ => none

/-- The arguments of a command. -/
structure Operands where
  plain : List String := []
  interval : Option String := none
  deriving DecidableEq, Repr

/-- Whether nothing is wrong with the arguments so far. -/
def Operands.isAcceptable (operands : Operands) (grammar : Grammar) : Bool :=
  (operands.plain.zipIdx.all fun (value, n) => grammar.accepts n value) &&
    operands.interval.all (seconds? · |>.isSome)

/-- What arguments come to. -/
inductive Reading (α : Type) where
  | help
  | misuse
  | said (value : α)
  deriving Repr

/-- Help, if nothing before was wrong. -/
def Reading.helpIf {α : Type} (fine : Bool) : Reading α :=
  if fine then .help else .misuse

/-- Read the arguments of a command. `isEnded` tells that the options have ended. -/
def readOperands (grammar : Grammar) (isEnded : Bool) (operands : Operands) :
    List String → Reading Operands
  | [] =>
    if grammar.least ≤ operands.plain.length && operands.isAcceptable grammar then .said operands
    else .misuse
  | argument :: rest =>
    match if isEnded then .plain argument else Word.ofText argument with
    | .endOfOptions => readOperands grammar true operands rest
    | .plain text =>
      if grammar.most.all (operands.plain.length < ·) then
        readOperands grammar isEnded { operands with plain := operands.plain ++ [text] } rest
      else .misuse
    | .short ('h' :: _) | .long "help" none => .helpIf (operands.isAcceptable grammar)
    | .long "interval" value =>
      if !grammar.hasInterval || operands.interval.isSome then .misuse
      else
        match value, rest with
        | some value, rest =>
          readOperands grammar isEnded { operands with interval := some value } rest
        | none, next :: rest =>
          match Word.ofText next with
          | .plain value =>
            readOperands grammar isEnded { operands with interval := some value } rest
          | _ => .misuse
        | none, [] => .misuse
    | _ => .misuse

/-- The seconds between runs if nothing is said about them. -/
def usualInterval : Nat := 600

/-- The command of a name with its arguments. -/
def Command.of? (name : String) (operands : Operands) : Option Command :=
  match name, operands.plain with
  | "refresh", _ => some .refresh
  | "doctor", _ => some .doctor
  | "check", language :: paths => some (.check language paths)
  | "fork", commit :: _ => (CommitId.parse commit).toOption.map .fork
  | "merge", commit :: _ => (CommitId.parse commit).toOption.map .merge
  | "watch", languages =>
    some (.watch ((operands.interval.bind seconds?).getD usualInterval) languages)
  | _, _ => none

/-- Read a command. -/
def readCommand (name : String) (arguments : List String) : Reading Command :=
  match grammar? name with
  | none => .misuse
  | some grammar =>
    match readOperands grammar false {} arguments with
    | .help => .help
    | .misuse => .misuse
    | .said operands =>
      match Command.of? name operands with
      | some command => .said command
      | none => .misuse

/-! ## The whole line -/

/-- Read the letters of an argument with one hyphen. -/
def readLetters (given : Given) : List Char → Reading Given
  | [] => .said given
  | 'v' :: rest =>
    if given.isVerbose || !given.isAcceptable then .misuse
    else readLetters { given with isVerbose := true } rest
  | 'h' :: _ => .helpIf given.isAcceptable
  | _ => .misuse

/-- Whether the arguments after `help` name nothing or one command. -/
def isHelpTopic : List String → Bool
  | [] => true
  | [name] => name = "help" || (grammar? name).isSome
  | _ => false

/-- Read options and the command after them. The value of an option is judged when the next
option is read, and at once if both are one argument; what is left is judged in the end. -/
def readLine (given : Given) : List String → Reading (Given × Command)
  | [] => .misuse
  | argument :: rest =>
    match Word.ofText argument with
    | .endOfOptions => .misuse
    | .plain "help" => .helpIf (isHelpTopic rest)
    | .plain name =>
      match readCommand name rest with
      | .help => .help
      | .misuse => .misuse
      | .said command => .said (given, command)
    | .short letters =>
      match readLetters given letters with
      | .help => .help
      | .misuse => .misuse
      | .said given => readLine given rest
    | .long "help" none => .helpIf given.isAcceptable
    | .long "verbose" none =>
      if given.isVerbose || !given.isAcceptable then .misuse
      else readLine { given with isVerbose := true } rest
    | .long name value =>
      match Setting.ofName? name with
      | none => .misuse
      | some setting =>
        if (given.values.lookup setting).isSome || !given.isAcceptable then .misuse
        else
          match value, rest with
          | some value, rest =>
            if setting.accepts value then
              readLine { given with values := (setting, value) :: given.values } rest
            else .misuse
          | none, next :: rest =>
            match Word.ofText next with
            | .plain value =>
              readLine { given with values := (setting, value) :: given.values } rest
            | _ => .misuse
          | none, [] => .misuse

/-- Read the arguments of the program. -/
def read (environment : String → Option String) (arguments : List String) :
    Reading (Options × Command) :=
  match readLine {} arguments with
  | .help => .help
  | .misuse => .misuse
  | .said (given, command) =>
    match Options.of? given environment with
    | some options => .said (options, command)
    | none => .misuse

end CommandLine

end LocaleWatch
