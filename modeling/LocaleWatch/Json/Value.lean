/-!
# JSON values and their tokens

Cache entries and reports are JSON. A value is a tree; written out, it is a
sequence of tokens. The type of numbers and the type of texts are parameters:

* a *document* is a value to be written: its numbers are naturals, its texts strings;
* a *reading* is what was found in some bytes: a number that is no natural and a text
  that is no Unicode are `none`. A reader that has no use for such a part passes over it.

## Main results

* `JsonValue.tokens` — the tokens of a value, in order.
-/

namespace LocaleWatch

/-- A JSON value with numbers of type `ν` and texts of type `τ`. -/
inductive JsonValue (ν τ : Type) where
  | null
  | bool (b : Bool)
  | number (n : ν)
  | text (t : τ)
  | list (items : List (JsonValue ν τ))
  /-- An object: members in the order in which they are written. -/
  | object (members : List (τ × JsonValue ν τ))
  deriving Repr, Inhabited

/-- A value to be written. -/
abbrev JsonDocument := JsonValue Nat String

/-- A value that was read: a number that is no natural and a text that is no Unicode
are `none`. -/
abbrev JsonReading := JsonValue (Option Nat) (Option String)

/-- A token of JSON with numbers of type `ν` and texts of type `τ`. -/
inductive JsonToken (ν τ : Type) where
  | beginList
  | endList
  | beginObject
  | endObject
  | comma
  | colon
  | null
  | bool (b : Bool)
  | number (n : ν)
  | text (t : τ)
  deriving DecidableEq, Repr

namespace JsonValue

variable {ν τ : Type}

mutual

/-- The tokens of a value. -/
def tokens : JsonValue ν τ → List (JsonToken ν τ)
  | .null => [.null]
  | .bool b => [.bool b]
  | .number n => [.number n]
  | .text t => [.text t]
  | .list items => .beginList :: (itemTokens items ++ [.endList])
  | .object members => .beginObject :: (memberTokens members ++ [.endObject])

/-- The tokens of the items of a list, with commas between them. -/
def itemTokens : List (JsonValue ν τ) → List (JsonToken ν τ)
  | [] => []
  | [item] => tokens item
  | item :: more => tokens item ++ .comma :: itemTokens more

/-- The tokens of the members of an object, with commas between them. -/
def memberTokens : List (τ × JsonValue ν τ) → List (JsonToken ν τ)
  | [] => []
  | [(key, value)] => .text key :: .colon :: tokens value
  | (key, value) :: more => .text key :: .colon :: (tokens value ++ .comma :: memberTokens more)

end

end JsonValue

end LocaleWatch
