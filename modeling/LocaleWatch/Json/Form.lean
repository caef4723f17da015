import LocaleWatch.Commit
import LocaleWatch.Json.Printer
import LocaleWatch.Json.Reader

/-!
# Types with a JSON form

A type has a JSON form if its values can be written as documents and read from
readings. Records are written as objects with their fields in order. They are read

* from an object in which each field occurs at most once; other members are passed
  over, as long as their keys are Unicode;
* from a list with exactly the fields in order.

A field of an `Option` type may be missing from an object.

## Main results

* `JsonForm.decode?` — the value in some bytes, read as the type.
-/

namespace LocaleWatch

/-- A type whose values are written as documents and read from readings. -/
class JsonForm (α : Type) where
  toJson : α → JsonDocument
  ofJson? : JsonReading → Option α

namespace JsonForm

variable {α : Type} [JsonForm α]

/-- The value in some bytes, read as the type. -/
def decode? (α : Type) [JsonForm α] (input : List UInt8) : Option α :=
  (JsonValue.parse? input).bind ofJson?

/-- The compact document of a value. -/
def compact (value : α) : String := (toJson value).compact

/-- The indented document of a value. -/
def indented (value : α) : String := (toJson value).indented

instance : JsonForm String where
  toJson := .text
  ofJson?
    | .text t => t
    | _ => none

instance : JsonForm UInt32 where
  toJson n := .number n.toNat
  ofJson?
    | .number (some n) => if n < UInt32.size then some (UInt32.ofNat n) else none
    | _ => none

instance : JsonForm UInt64 where
  toJson n := .number n.toNat
  ofJson?
    | .number (some n) => if n < UInt64.size then some (UInt64.ofNat n) else none
    | _ => none

instance : JsonForm (Option α) where
  toJson
    | none => .null
    | some value => toJson value
  ofJson?
    | .null => some none
    | reading => (ofJson? reading).map some

instance : JsonForm (List α) where
  toJson items := .list (items.map toJson)
  ofJson?
    | .list items => items.mapM ofJson?
    | _ => none

/-- The readings of the fields with these names, `none` for a field that an object
lacks. -/
def fields? (names : List String) : JsonReading → Option (List (Option JsonReading))
  | .list items => if items.length = names.length then some (items.map some) else none
  | .object members =>
    if members.all (·.1.isSome) then
      names.mapM fun name =>
        match members.filter (·.1 = some name) with
        | [] => some none
        | [(_, value)] => some (some value)
        | _ => none
    else none
  | _ => none

/-- The value of a field that must be there. -/
def required? (field : Option JsonReading) : Option α :=
  field.bind ofJson?

/-- The value of a field that may be missing. -/
def optional? (field : Option JsonReading) : Option (Option α) :=
  match field with
  | none => some none
  | some reading => ofJson? reading

instance : JsonForm CommitId where
  toJson id := .text id.text
  ofJson? reading := (ofJson? reading).bind fun text => (CommitId.parse text).toOption

instance : JsonForm Commit where
  toJson commit := .object [("id", toJson commit.id), ("timestamp", toJson commit.timestamp),
    ("subject", toJson commit.subject)]
  ofJson? reading := do
    match ← fields? ["id", "timestamp", "subject"] reading with
    | [id, timestamp, subject] =>
      return ⟨← required? id, ← required? timestamp, ← required? subject⟩
    | _ => none

end JsonForm

end LocaleWatch
