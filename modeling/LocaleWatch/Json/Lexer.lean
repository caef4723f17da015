import LocaleWatch.Json.Value
import LocaleWatch.Text.Utf8

/-!
# The tokens in a byte sequence

The bytes are read symbol by symbol; the *mode* says which token is being read.
Between tokens stand spaces, tabs, line feeds and carriage returns.

Inside a text everything but the unescaped characters below the space may stand,
also bytes that are no UTF-8 and escapes of half a surrogate pair. Whether such a
text is Unicode is said by the token: it carries the string, or `none`. In the same
way a number token carries its value if it is a natural without sign, fraction and
exponent, and `none` otherwise.

## Main results

* `JsonToken.joinUnits_char` — a text without surrogates and malformed bytes is Unicode.
-/

namespace LocaleWatch

open Text

/-- A unit of a JSON text: a character, an escaped surrogate, or bytes that are no
UTF-8. -/
inductive TextUnit where
  | char (c : Char)
  /-- An escaped code unit between U+D800 and U+DFFF. -/
  | surrogate (n : Nat)
  | malformed
  deriving DecidableEq, Repr

/-- The code unit of an escape as a unit of a text. -/
def TextUnit.ofCode (n : Nat) : TextUnit :=
  if 0xD800 ≤ n ∧ n < 0xE000 then .surrogate n else .char (Char.ofNat n)

/-- The characters of a text, if it is Unicode: each surrogate belongs to a pair, and
nothing is malformed. -/
def joinUnits? : List TextUnit → Option (List Char)
  | [] => some []
  | .char c :: rest => (joinUnits? rest).map (c :: ·)
  | .surrogate high :: .surrogate low :: rest =>
    if high < 0xDC00 ∧ 0xDC00 ≤ low then
      (joinUnits? rest).map
        (Char.ofNat (0x10000 + (high - 0xD800) * 0x400 + (low - 0xDC00)) :: ·)
    else none
  | _ => none

/-- How far a number has been read. -/
inductive NumberPhase where
  | minus
  | zero
  | integer
  | point
  | fraction
  | mark
  | sign
  | exponent
  deriving DecidableEq, Repr

/-- Whether a number may end in this phase. -/
def NumberPhase.mayEnd : NumberPhase → Bool
  | .zero | .integer | .fraction | .exponent => true
  | .minus | .point | .mark | .sign => false

/-- The phase after one more character; none if the number cannot go on with it. -/
def NumberPhase.next? (phase : NumberPhase) (c : Char) : Option NumberPhase :=
  match phase with
  | .minus => if c = '0' then some .zero else if c.isDigit then some .integer else none
  | .zero => if c = '.' then some .point else if c = 'e' ∨ c = 'E' then some .mark else none
  | .integer =>
    if c.isDigit then some .integer
    else if c = '.' then some .point
    else if c = 'e' ∨ c = 'E' then some .mark
    else none
  | .point => if c.isDigit then some .fraction else none
  | .fraction =>
    if c.isDigit then some .fraction
    else if c = 'e' ∨ c = 'E' then some .mark
    else none
  | .mark =>
    if c = '+' ∨ c = '-' then some .sign else if c.isDigit then some .exponent else none
  | .sign => if c.isDigit then some .exponent else none
  | .exponent => if c.isDigit then some .exponent else none

/-- What is being read. Units of a text are kept newest first. -/
inductive LexerMode where
  | gap
  /-- A word, of which `rest` is still to come. -/
  | word (rest : List Char) (token : JsonToken (Option Nat) (Option String))
  | number (phase : NumberPhase) (value : Option Nat)
  | text (units : List TextUnit)
  | escape (units : List TextUnit)
  /-- A text, inside a code escape with `missing + 1` digits still to come. -/
  | code (units : List TextUnit) (missing value : Nat)
  deriving DecidableEq, Repr

/-- A token of a reading. -/
abbrev ReadToken := JsonToken (Option Nat) (Option String)

/-- The value of a decimal digit. -/
def digitValue (c : Char) : Nat := c.toNat - 48

/-- The value of a hexadecimal digit. -/
def hexDigitValue? (c : Char) : Option Nat :=
  if c.isDigit then some (c.toNat - 48)
  else if 'a' ≤ c ∧ c ≤ 'f' then some (c.toNat - 87)
  else if 'A' ≤ c ∧ c ≤ 'F' then some (c.toNat - 55)
  else none

/-- The character that a backslash and this letter stand for. -/
def escapedLetter? (c : Char) : Option Char :=
  match c with
  | '"' => some '"'
  | '\\' => some '\\'
  | '/' => some '/'
  | 'b' => some '\x08'
  | 'f' => some '\x0c'
  | 'n' => some '\n'
  | 'r' => some '\r'
  | 't' => some '\t'
  | _ => none

namespace LexerMode

/-- The mode after a character between tokens, and the token that is complete with it. -/
def start? (c : Char) : Option (LexerMode × List ReadToken) :=
  match c with
  | ' ' | '\t' | '\n' | '\r' => some (.gap, [])
  | '[' => some (.gap, [.beginList])
  | ']' => some (.gap, [.endList])
  | '\x7b' => some (.gap, [.beginObject])
  | '\x7d' => some (.gap, [.endObject])
  | ',' => some (.gap, [.comma])
  | ':' => some (.gap, [.colon])
  | 'n' => some (.word ['u', 'l', 'l'] .null, [])
  | 't' => some (.word ['r', 'u', 'e'] (.bool true), [])
  | 'f' => some (.word ['a', 'l', 's', 'e'] (.bool false), [])
  | '"' => some (.text [], [])
  | '-' => some (.number .minus none, [])
  | '0' => some (.number .zero (some 0), [])
  | c => if c.isDigit then some (.number .integer (some (digitValue c)), []) else none

/-- The mode after one more symbol, and the tokens that are complete with it. -/
def step? (mode : LexerMode) (symbol : Symbol) : Option (LexerMode × List ReadToken) :=
  match mode, symbol with
  | .gap, .char c => start? c
  | .word [] _, .char _ => none
  | .word [last] token, .char c => if c = last then some (.gap, [token]) else none
  | .word (next :: rest) token, .char c => if c = next then some (.word rest token, []) else none
  | .number phase value, .char c =>
    match phase.next? c with
    | some .integer => some (.number .integer (value.map fun n => n * 10 + digitValue c), [])
    | some phase => some (.number phase none, [])
    | none =>
      if phase.mayEnd then
        (start? c).map fun (mode, tokens) => (mode, .number value :: tokens)
      else none
  | .text units, .char c =>
    if c = '"' then
      some (.gap, [.text ((joinUnits? units.reverse).map String.ofList)])
    else if c = '\\' then some (.escape units, [])
    else if c.toNat < 0x20 then none
    else some (.text (.char c :: units), [])
  | .text units, .malformed _ => some (.text (.malformed :: units), [])
  | .escape units, .char c =>
    if c = 'u' then some (.code units 3 0, [])
    else (escapedLetter? c).map fun d => (.text (.char d :: units), [])
  | .code units missing value, .char c =>
    (hexDigitValue? c).map fun digit =>
      match missing with
      | 0 => (.text (TextUnit.ofCode (value * 16 + digit) :: units), [])
      | missing + 1 => (.code units missing (value * 16 + digit), [])
  | _, .malformed _ => none

/-- The tokens that are complete with the end of the input. -/
def finish? : LexerMode → Option (List ReadToken)
  | .gap => some []
  | .number phase value => if phase.mayEnd then some [.number value] else none
  | _ => none

end LexerMode

/-- The tokens of an input that is read on from `mode`. -/
def lexFrom? (mode : LexerMode) : List Symbol → Option (List ReadToken)
  | [] => mode.finish?
  | symbol :: rest =>
    match mode.step? symbol with
    | none => none
    | some (next, tokens) => (lexFrom? next rest).map (tokens ++ ·)

/-- The tokens of an input. -/
def lex? (input : List UInt8) : Option (List ReadToken) :=
  lexFrom? .gap (symbols input)

/-- A text without surrogates and malformed bytes is Unicode. -/
theorem joinUnits?_char (characters : List Char) :
    joinUnits? (characters.map TextUnit.char) = some characters := by
  induction characters with
  | nil => rfl
  | cons c rest ih => simp [joinUnits?, ih]

end LocaleWatch
