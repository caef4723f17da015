import LocaleWatch.Json.Form

/-!
# The state of a localized file

A localized file is compared with the origin file, which it was made from. The
comparison starts at the point of history that it is known to have seen; every commit to
the origin file after that point is an update that it lacks.
-/

namespace LocaleWatch

/-- How the origin file relates to a localized file. -/
inductive OriginStatus where
  | unchanged
  | missing
  | modified
  deriving DecidableEq, Repr

/-- The word that stands for a status. -/
def OriginStatus.word : OriginStatus → String
  | .unchanged => "UNCHANGED"
  | .missing => "NOT_EXIST"
  | .modified => "MODIFIED"

/-- The status that a word stands for. -/
def OriginStatus.ofWord? : String → Option OriginStatus
  | "UNCHANGED" => some .unchanged
  | "NOT_EXIST" => some .missing
  | "MODIFIED" => some .modified
  | _ => none

@[simp] theorem OriginStatus.ofWord?_word (status : OriginStatus) :
    OriginStatus.ofWord? status.word = some status := by
  cases status <;> rfl

/-- One commit to the origin file that a localized file has not seen. -/
structure OriginUpdate where
  commit : Commit
  /-- The commit that merged it into the main branch; none if it was made on the main
  branch or is not merged yet. -/
  merge : Option Commit
  deriving DecidableEq, Repr

/-- The state of one localized file. -/
structure LocalizedFile where
  path : String
  lastCommit : Option Commit
  /-- Where that commit's branch left the main branch; none on the main branch. -/
  fork : Option Commit
  merge : Option Commit
  status : OriginStatus
  updates : List OriginUpdate
  deriving DecidableEq, Repr

/-- Whether a localized file needs attention. -/
def LocalizedFile.isStale (file : LocalizedFile) : Bool :=
  file.status ≠ .unchanged

namespace JsonForm

/-- A status is written as its word. It is also read from an object with the word as
its only key and `null` as the value. -/
instance : JsonForm OriginStatus where
  toJson status := .text status.word
  ofJson?
    | .text (some word) => OriginStatus.ofWord? word
    | .object [(some word, .null)] => OriginStatus.ofWord? word
    | _ => none

instance : JsonForm OriginUpdate where
  toJson update := .object [("commit", toJson update.commit), ("merge_commit", toJson update.merge)]
  ofJson? reading := do
    match ← fields? ["commit", "merge_commit"] reading with
    | [commit, merge] => return ⟨← required? commit, ← optional? merge⟩
    | _ => none

instance : JsonForm LocalizedFile where
  toJson file := .object [
    ("path", toJson file.path),
    ("last_commit", toJson file.lastCommit),
    ("fork_commit", toJson file.fork),
    ("merge_commit", toJson file.merge),
    ("origin_status", toJson file.status),
    ("origin_updates", toJson file.updates)]
  ofJson? reading := do
    match ← fields? ["path", "last_commit", "fork_commit", "merge_commit", "origin_status",
        "origin_updates"] reading with
    | [path, lastCommit, fork, merge, status, updates] =>
      return ⟨← required? path, ← optional? lastCommit, ← optional? fork, ← optional? merge,
        ← required? status, ← required? updates⟩
    | _ => none

end JsonForm

end LocaleWatch
