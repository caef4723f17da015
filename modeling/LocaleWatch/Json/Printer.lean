import LocaleWatch.Json.Value
import LocaleWatch.Text.Utf8

/-!
# Writing JSON

A document is written in one of two layouts: compact, with nothing between the
tokens, and indented, with one item per line, two spaces per level and a space after
each colon. A layout is a list of *pieces*, tokens and gaps, so both layouts visibly
hold the same tokens.

In a text the quote, the backslash and the characters below the space are escaped;
those with a letter of their own use it, the others four hexadecimal digits.
Everything else is written as it is.

## Main results

* `compactPieces_tokens` — the compact layout holds exactly the tokens of the value.
-/

namespace LocaleWatch

open Text

/-- The letter that stands for a character after a backslash, if there is one. -/
def JsonToken.letter? : Char → Option Char
  | '"' => some '"'
  | '\\' => some '\\'
  | '\x08' => some 'b'
  | '\t' => some 't'
  | '\n' => some 'n'
  | '\x0c' => some 'f'
  | '\r' => some 'r'
  | _ => none

/-- The escaped form of a character inside a JSON text. -/
def JsonToken.escape (c : Char) : List Char :=
  match letter? c with
  | some letter => ['\\', letter]
  | none =>
    if c.toNat < 0x20 then
      ['\\', 'u', '0', '0', Nat.digitChar (c.toNat / 16), Nat.digitChar (c.toNat % 16)]
    else [c]

/-- How a token is written. -/
def JsonToken.written : JsonToken Nat String → List Char
  | .beginList => ['[']
  | .endList => [']']
  | .beginObject => ['\x7b']
  | .endObject => ['\x7d']
  | .comma => [',']
  | .colon => [':']
  | .null => ['n', 'u', 'l', 'l']
  | .bool true => ['t', 'r', 'u', 'e']
  | .bool false => ['f', 'a', 'l', 's', 'e']
  | .number n => Nat.toDigits 10 n
  | .text t => '"' :: (t.toList.flatMap escape ++ ['"'])

/-- A piece of a layout. -/
inductive JsonPiece where
  | token (t : JsonToken Nat String)
  | space
  | line (depth : Nat)
  deriving DecidableEq, Repr

/-- How a piece is written. -/
def JsonPiece.written : JsonPiece → List Char
  | .token t => t.written
  | .space => [' ']
  | .line depth => '\n' :: List.replicate (2 * depth) ' '

/-- The token of a piece, if it is one. -/
def JsonPiece.token? : JsonPiece → Option (JsonToken Nat String)
  | .token t => some t
  | _ => none

namespace JsonValue

/-- The compact layout. -/
def compactPieces (value : JsonDocument) : List JsonPiece :=
  value.tokens.map .token

mutual

/-- The indented layout of a value whose first line is indented to `depth`. -/
def indentedPieces (depth : Nat) : JsonDocument → List JsonPiece
  | .null => [.token .null]
  | .bool b => [.token (.bool b)]
  | .number n => [.token (.number n)]
  | .text t => [.token (.text t)]
  | .list [] => [.token .beginList, .token .endList]
  | .list (item :: more) =>
    .token .beginList :: (indentedItems (depth + 1) (item :: more) ++
      [.line depth, .token .endList])
  | .object [] => [.token .beginObject, .token .endObject]
  | .object (member :: more) =>
    .token .beginObject :: (indentedMembers (depth + 1) (member :: more) ++
      [.line depth, .token .endObject])

/-- Each item on a line of its own. -/
def indentedItems (depth : Nat) : List JsonDocument → List JsonPiece
  | [] => []
  | [item] => .line depth :: indentedPieces depth item
  | item :: more =>
    .line depth :: (indentedPieces depth item ++ .token .comma :: indentedItems depth more)

/-- Each member on a line of its own. -/
def indentedMembers (depth : Nat) : List (String × JsonDocument) → List JsonPiece
  | [] => []
  | [(key, value)] =>
    .line depth :: .token (.text key) :: .token .colon :: .space :: indentedPieces depth value
  | (key, value) :: more =>
    .line depth :: .token (.text key) :: .token .colon :: .space ::
      (indentedPieces depth value ++ .token .comma :: indentedMembers depth more)

end

/-- The text of a layout. -/
def ofPieces (pieces : List JsonPiece) : String :=
  String.ofList (pieces.flatMap JsonPiece.written)

/-- The document in compact layout. -/
def compact (value : JsonDocument) : String := ofPieces value.compactPieces

/-- The document in indented layout. -/
def indented (value : JsonDocument) : String := ofPieces (value.indentedPieces 0)

/-- The compact layout holds exactly the tokens of the value. -/
theorem compactPieces_tokens (value : JsonDocument) :
    value.compactPieces.filterMap JsonPiece.token? = value.tokens := by
  have : JsonPiece.token? ∘ JsonPiece.token = some := rfl
  rw [compactPieces, List.filterMap_map, this, List.filterMap_some]

end JsonValue

end LocaleWatch
