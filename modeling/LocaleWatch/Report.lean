import LocaleWatch.LocalizedFile

/-!
# Reports

A report is what a run finds out about the files of one language. It is written as an
indented JSON file that is named for the language.
-/

namespace LocaleWatch

/-- The state of a language's files at one point of history. -/
structure Report where
  language : String
  /-- When the report was made, in seconds since the start of 1970. -/
  generatedAt : UInt64
  head : Option CommitId
  stale : UInt64
  files : List LocalizedFile
  deriving DecidableEq, Repr

/-- The report of a language whose files are in these states. -/
def Report.ofFiles (language : String) (generatedAt : UInt64) (head : Option CommitId)
    (files : List LocalizedFile) : Report :=
  ⟨language, generatedAt, head, UInt64.ofNat (files.countP LocalizedFile.isStale), files⟩

namespace JsonForm

instance : JsonForm Report where
  toJson report := .object [
    ("language", toJson report.language),
    ("generated_at", toJson report.generatedAt),
    ("head", toJson report.head),
    ("stale", toJson report.stale),
    ("files", toJson report.files)]
  ofJson? reading := do
    match ← fields? ["language", "generated_at", "head", "stale", "files"] reading with
    | [language, generatedAt, head, stale, files] =>
      return ⟨← required? language, ← required? generatedAt, ← optional? head,
        ← required? stale, ← required? files⟩
    | _ => none

end JsonForm

end LocaleWatch
