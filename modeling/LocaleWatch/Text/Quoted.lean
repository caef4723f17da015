import LocaleWatch.Text.Unseen
import LocaleWatch.Text.Utf8

/-!
# Quoted text

Messages show foreign text between quotes, so that its ends and its unseen
characters can be told. A quote and a backslash get a backslash; the usual
controls have a letter; every other character that shows nothing is written by
its code in braces. Bytes that are no text are written one by one in hexadecimal.
-/

namespace LocaleWatch.Text

/-- The two quotes, each escaped or left alone. -/
structure QuoteStyle where
  single : Bool
  double : Bool
  deriving DecidableEq, Repr

/-- Inside `"…"`, only `"` needs a backslash. -/
def QuoteStyle.text : QuoteStyle := ⟨false, true⟩

/-- Inside `'…'`, only `'` needs a backslash. -/
def QuoteStyle.character : QuoteStyle := ⟨true, false⟩

/-- A quoted path gives both quotes a backslash. -/
def QuoteStyle.path : QuoteStyle := ⟨true, true⟩

/-- The code point of `c` in lowercase hexadecimal between braces. -/
def byCode (c : Char) : List Char :=
  '\\' :: 'u' :: '\x7b' :: (Nat.toDigits 16 c.toNat ++ ['\x7d'])

/-- The written form of one character between quotes. -/
def escape (style : QuoteStyle) (c : Char) : List Char :=
  if c = '\x00' then ['\\', '0']
  else if c = '\t' then ['\\', 't']
  else if c = '\r' then ['\\', 'r']
  else if c = '\n' then ['\\', 'n']
  else if c = '\\' then ['\\', '\\']
  else if c = '"' then (if style.double then ['\\', '"'] else ['"'])
  else if c = '\'' then (if style.single then ['\\', '\''] else ['\''])
  else if showsNothing c then byCode c
  else [c]

/-- A byte in two uppercase hexadecimal digits after a backslash and an `x`. -/
def byHex (b : UInt8) : List Char :=
  let digit (n : Nat) : Char := (Nat.digitChar n).toUpper
  ['\\', 'x', digit (b.toNat / 16), digit (b.toNat % 16)]

/-- The text between double quotes. -/
def quote (text : String) : String :=
  String.ofList ('"' :: (text.toList.flatMap (escape .text) ++ ['"']))

/-- The character between single quotes. -/
def quoteChar (c : Char) : String :=
  String.ofList ('\'' :: (escape .character c ++ ['\'']))

/-- Bytes between double quotes: their characters escaped, the rest in hexadecimal. -/
def quoteBytes (input : List UInt8) : String :=
  let written : Symbol → List Char
    | .char c => escape .path c
    | .malformed run => run.flatMap byHex
  String.ofList ('"' :: ((symbols input).flatMap written ++ ['"']))

end LocaleWatch.Text
