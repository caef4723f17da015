import LocaleWatch.Json.Form

/-!
# What a refresh leaves behind

The state of the last successful refresh is kept in the cache, so that a later process
knows where the working copy was.
-/

namespace LocaleWatch

/-- What the last successful refresh left behind. -/
structure RefreshState where
  head : Option CommitId
  files : List String
  deriving DecidableEq, Repr

namespace JsonForm

instance : JsonForm RefreshState where
  toJson state := .object [("last_head", toJson state.head),
    ("refreshed_files", toJson state.files)]
  ofJson? reading := do
    match ← fields? ["last_head", "refreshed_files"] reading with
    | [head, files] => return ⟨← optional? head, ← required? files⟩
    | _ => none

end JsonForm

end LocaleWatch
