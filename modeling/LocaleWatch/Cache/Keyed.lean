import LocaleWatch.Json.Form
import LocaleWatch.Tracking

/-!
# The cache

A value is kept as its compact JSON form under a category and a key. Entries never
expire: they go only when they are dropped or overwritten. A value that is not there is
computed and then kept, also if it is empty; what cannot be read is never computed anew.
-/

namespace LocaleWatch

namespace Cache

variable {α : Type} [JsonForm α]

/-- The value of an entry, read as a type; none if there is no entry. -/
def load (α : Type) [JsonForm α] (category key : String) :
    Attempt Tracking CacheError (Option α) := do
  if ← Tracking.isCancelled then throw (.cancelled .read)
  match ← Tracking.read category key with
  | none => return none
  | some bytes =>
    match JsonForm.decode? α bytes with
    | some value => return some value
    | none => throw (.undecodable category key)

/-- Write an entry, whatever was there. -/
def put (category key : String) (value : α) : Attempt Tracking CacheError Unit := do
  if ← Tracking.isCancelled then throw (.cancelled .write)
  Tracking.write category key (Text.bytes (JsonForm.compact value))

/-- Remove an entry; it may be absent already. -/
def drop (category key : String) : Attempt Tracking CacheError Unit :=
  Tracking.delete category key

/-- Whether there is an entry. -/
def holds (category key : String) : Attempt Tracking CacheError Bool :=
  Tracking.holds category key

/-- The value of an entry; if there is none, or an invalid one, the value is computed
and put there. -/
def getUnless (isInvalid : α → Bool) (category key : String) (compute : History α) :
    History α := do
  if let some value ← Attempt.mapError .cache (load α category key) then
    unless isInvalid value do return value
  let value ← compute
  Attempt.mapError .cache (put category key value)
  return value

/-- The value of an entry; if there is none, it is computed and put there. -/
def get (category key : String) (compute : History α) : History α :=
  getUnless (fun _ => false) category key compute

end Cache

end LocaleWatch
