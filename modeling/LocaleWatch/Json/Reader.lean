import LocaleWatch.Json.Lexer

/-!
# The value in a token sequence

The reader keeps what it has read of each list and object that is still open, the
innermost first, and what may come next. It ends after one whole value.

## Main results

* `JsonReader.read?` — the value of a token sequence that is one.
-/

namespace LocaleWatch

namespace JsonReader

variable {ν τ : Type}

/-- A list or an object that is still open. Items and members are kept newest first. -/
inductive Frame (ν τ : Type) where
  | list (before : List (JsonValue ν τ))
  | object (before : List (τ × JsonValue ν τ))
  | member (before : List (τ × JsonValue ν τ)) (key : τ)

/-- What may come next. -/
inductive Awaiting (ν τ : Type) where
  | value
  | firstItem
  | firstKey
  | key
  | colon
  | after (value : JsonValue ν τ)

/-- What has been read so far. -/
structure State (ν τ : Type) where
  awaiting : Awaiting ν τ
  frames : List (Frame ν τ)

/-- Nothing has been read. -/
def State.start : State ν τ := ⟨.value, []⟩

/-- Read a token that begins a value. -/
def State.begin? (frames : List (Frame ν τ)) : JsonToken ν τ → Option (State ν τ)
  | .null => some ⟨.after .null, frames⟩
  | .bool b => some ⟨.after (.bool b), frames⟩
  | .number n => some ⟨.after (.number n), frames⟩
  | .text t => some ⟨.after (.text t), frames⟩
  | .beginList => some ⟨.firstItem, .list [] :: frames⟩
  | .beginObject => some ⟨.firstKey, .object [] :: frames⟩
  | _ => none

/-- Read one more token. -/
def State.step? (state : State ν τ) (token : JsonToken ν τ) : Option (State ν τ) :=
  match state.awaiting, token, state.frames with
  | .firstItem, .endList, .list _ :: frames => some ⟨.after (.list []), frames⟩
  | .value, token, frames => begin? frames token
  | .firstItem, token, frames => begin? frames token
  | .firstKey, .endObject, .object _ :: frames => some ⟨.after (.object []), frames⟩
  | .firstKey, .text key, .object before :: frames => some ⟨.colon, .member before key :: frames⟩
  | .key, .text key, .object before :: frames => some ⟨.colon, .member before key :: frames⟩
  | .colon, .colon, frames => some ⟨.value, frames⟩
  | .after value, .comma, .list before :: frames => some ⟨.value, .list (value :: before) :: frames⟩
  | .after value, .endList, .list before :: frames =>
    some ⟨.after (.list (value :: before).reverse), frames⟩
  | .after value, .comma, .member before key :: frames =>
    some ⟨.key, .object ((key, value) :: before) :: frames⟩
  | .after value, .endObject, .member before key :: frames =>
    some ⟨.after (.object ((key, value) :: before).reverse), frames⟩
  | _, _, _ => none

/-- The value, if exactly one has been read. -/
def State.value? (state : State ν τ) : Option (JsonValue ν τ) :=
  match state.awaiting, state.frames with
  | .after value, [] => some value
  | _, _ => none

/-- Read tokens from a state on. -/
def readFrom? (state : State ν τ) : List (JsonToken ν τ) → Option (JsonValue ν τ)
  | [] => state.value?
  | token :: rest => (state.step? token).bind fun next => readFrom? next rest

/-- The value of a token sequence. -/
def read? (tokens : List (JsonToken ν τ)) : Option (JsonValue ν τ) :=
  readFrom? .start tokens

end JsonReader

/-- The value in a byte sequence. -/
def JsonValue.parse? (input : List UInt8) : Option JsonReading :=
  (lex? input).bind JsonReader.read?

end LocaleWatch
