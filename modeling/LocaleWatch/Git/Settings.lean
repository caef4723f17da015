import LocaleWatch.Text.Split

/-!
# Settings of a repository

A settings file is a sequence of lines. A line `[section]` or `[section "part"]` opens a
section, and more may follow it on its line; a line `name = value` or `name` alone is a
setting of the open section. `#` and `;` start a comment, except between quotes. A value
may be quoted, in part or as a whole, a backslash stands before a few special characters,
and a backslash at the end of a line goes on with the next line.

Only two settings decide whether a repository can be used: the version of its format, and
whether it is bare.
-/

namespace LocaleWatch

open Text

/-- The settings of a repository: names with the section in front, and values; a setting
without a value is `none`. -/
structure GitSettings where
  entries : List (String × Option String)
  deriving DecidableEq, Repr, Inhabited

namespace GitSettings

/-- Whether a character is a space in a settings file. -/
def isSpace (c : Char) : Bool :=
  c = ' ' || (9 ≤ c.toNat && c.toNat ≤ 13)

/-- Whether a character may stand in a setting's name. -/
def isNameCharacter (c : Char) : Bool :=
  c.isAlphanum || c = '-'

/-- A list without the spaces at its end. -/
def dropSpacesAtEnd (line : List Char) : List Char :=
  (line.reverse.dropWhile isSpace).reverse

/-- A line up to its comment, and whether it ends between quotes. `afterBackslash` tells
whether an odd number of backslashes stands before the line's rest. -/
def upToComment (quoted afterBackslash : Bool) : List Char → List Char × Bool
  | [] => ([], quoted)
  | c :: rest =>
    if (c = ';' || c = '#') && !quoted && !afterBackslash then ([], quoted)
    else
      let quoted := if c = '"' && !afterBackslash then !quoted else quoted
      let (kept, atEnd) := upToComment quoted (c = '\\' && !afterBackslash) rest
      (c :: kept, atEnd)

/-- The character that a backslash makes of one. -/
def escaped? : Char → Option Char
  | 'n' => some '\n'
  | 't' => some '\t'
  | 'b' => some '\x08'
  | '"' => some '"'
  | '\\' => some '\\'
  | _ => none

/-- The value that a line writes, and whether it goes on with the next line. -/
def unescape? : List Char → Option (List Char × Bool)
  | [] => some ([], false)
  | ['\\'] => some ([], true)
  | '\\' :: c :: rest => do
    let c ← escaped? c
    let (value, goesOn) ← unescape? rest
    return (c :: value, goesOn)
  | '"' :: rest => unescape? rest
  | c :: rest => do
    let (value, goesOn) ← unescape? rest
    return (c :: value, goesOn)

/-- The part in quotes after a section's name, and what follows the closing bracket. -/
def quotedPart? : List Char → Option (List Char × List Char)
  | '"' :: ']' :: rest => some ([], rest)
  | '"' :: _ => none
  | '\\' :: c :: rest => (quotedPart? rest).map fun (part, after) => (c :: part, after)
  | c :: rest => (quotedPart? rest).map fun (part, after) => (c :: part, after)
  | [] => none

/-- The section that a line opens after its bracket, and what follows on the line. -/
def heading? (line : List Char) : Option (List Char × List Char) :=
  let isHeadingCharacter (c : Char) : Bool := isNameCharacter c || c = '.'
  let name := (line.takeWhile isHeadingCharacter).map Char.toLower
  match line.dropWhile isHeadingCharacter with
  | ']' :: rest => if name.isEmpty then none else some (name, rest)
  | c :: rest =>
    if isSpace c then
      match rest.dropWhile isSpace with
      | '"' :: rest => (quotedPart? rest).map fun (part, after) => (name ++ '.' :: part, after)
      | _ => none
    else none
  | [] => none

/-- Where the reader of a settings file is. -/
structure Position where
  openSection : List Char
  /-- A setting whose value goes on: its name, its value so far, and whether that ends
  between quotes. -/
  unfinished : Option (String × List Char × Bool)
  found : List (String × Option String)

/-- Go over a line that continues a value. -/
def continueValue? (position : Position) (name : String) (value : List Char) (quoted : Bool)
    (line : List Char) : Option Position := do
  let (kept, quoted) := upToComment quoted false line
  let kept := dropSpacesAtEnd kept
  let (more, goesOn) ← unescape? kept
  let value := value ++ more
  if goesOn || kept.isEmpty then
    return { position with unfinished := some (name, value, quoted) }
  else
    return { position with
      unfinished := none, found := (name, some (String.ofList value)) :: position.found }

/-- Go over a setting. -/
def setting? (position : Position) (line : List Char) : Option Position := do
  let (kept, quoted) := upToComment false false line
  let kept := dropSpacesAtEnd kept
  let name := kept.takeWhile isNameCharacter
  if name.isEmpty then failure
  let start := if position.openSection.isEmpty then [] else position.openSection ++ ['.']
  let name := String.ofList (start ++ name.map Char.toLower)
  match (kept.dropWhile isNameCharacter).dropWhile isSpace with
  | [] => return { position with found := (name, none) :: position.found }
  | '=' :: rest =>
    let (value, goesOn) ← unescape? (rest.dropWhile isSpace)
    if goesOn then return { position with unfinished := some (name, value, quoted) }
    else
      return { position with found := (name, some (String.ofList value)) :: position.found }
  | _ => failure

/-- Go over a line, in which at most `brackets` sections are opened. -/
def line? (position : Position) : (brackets : Nat) → List Char → Option Position
  | brackets, line =>
    match line.dropWhile isSpace with
    | [] => some position
    | ';' :: _ | '#' :: _ => some position
    | '[' :: rest =>
      match brackets with
      | 0 => none
      | brackets + 1 => do
        let (name, rest) ← heading? rest
        line? { position with openSection := name } brackets rest
    | first :: rest => setting? position (first :: rest)

/-- Go over one more line of the file. -/
def step? (position : Position) (line : List Char) : Option Position :=
  match position.unfinished with
  | some (name, value, quoted) => continueValue? position name value quoted line
  | none => line? position (line.count '[') line

/-- A text without the byte order mark that it may start with. -/
def dropByteOrderMark (text : List Char) : List Char :=
  if text.head? = some '\uFEFF' then text.drop 1 else text

/-- The settings that a file's text writes. -/
def parse? (text : String) : Option GitSettings := do
  let lines := split '\n' (dropByteOrderMark text.toList)
  let position ← lines.foldlM step? ⟨[], none, []⟩
  let unfinished := position.unfinished.map fun (name, value, _) =>
    (name, some (String.ofList value))
  return ⟨(unfinished.toList ++ position.found).reverse⟩

/-- The value that a setting has at the end of the file. -/
def value? (settings : GitSettings) (name : String) : Option (Option String) :=
  settings.entries.reverse.lookup name

/-- An integer, perhaps with a factor of 1024 or a power of it as `k`, `m` or `g`. -/
def integer? (text : String) : Option Int :=
  let (digits, factor) : String × Int :=
    match text.toList.getLast?.map Char.toLower with
    | some 'k' => ((text.dropEnd 1).toString, 1024)
    | some 'm' => ((text.dropEnd 1).toString, 1024 * 1024)
    | some 'g' => ((text.dropEnd 1).toString, 1024 * 1024 * 1024)
    | _ => (text, 1)
  digits.toInt?.map (· * factor)

/-- A truth value; a setting without a value is true. -/
def truth? : Option String → Option Bool
  | none => some true
  | some text =>
    match String.ofList (text.toList.map Char.toLower) with
    | "true" | "yes" | "on" => some true
    | "false" | "no" | "off" | "" => some false
    | _ => (integer? text).map (· ≠ 0)

/-- The extensions that a repository may have. -/
def knownExtensions : List String :=
  ["extensions.noop", "extensions.objectformat", "extensions.worktreeconfig",
    "extensions.preciousobjects"]

/-- Whether the format is one that can be used: version 0, which is meant if no version is
set, or version 1 with known extensions only. -/
def isSupported (settings : GitSettings) : Bool :=
  match settings.value? "core.repositoryformatversion" with
  | none => true
  | some none => false
  | some (some text) =>
    match integer? text with
    | some 0 => true
    | some 1 => settings.entries.all fun (name, _) =>
      !"extensions.".toList.isPrefixOf name.toList || knownExtensions.contains name
    | _ => false

/-- Whether the repository has no working copy; none if its settings do not say it as a
truth value. -/
def isBare? (settings : GitSettings) : Option Bool :=
  match settings.value? "core.bare" with
  | none => some false
  | some value => truth? value

end GitSettings

end LocaleWatch
