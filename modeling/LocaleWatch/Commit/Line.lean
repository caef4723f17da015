import LocaleWatch.Commit

/-!
# One commit per line

History listings print a commit as its name, a space, its timestamp, a space and
its subject. The name and the timestamp hold no space, so the first two spaces of
a line are its separators; the subject may hold spaces and may be empty.

## Main results

* `Commit.ofLine?_line` — a printed commit is read back.
* `Commit.line_of_ofLine?` — a line that is read is the printed form of its commit.
-/

namespace LocaleWatch

open Text

/-- The listing format that prints commits in this form. -/
def Commit.listingFormat : String := "--format=%H %cI %s"

/-- The line of a commit. -/
def Commit.line (commit : Commit) : String :=
  commit.id.text ++ " " ++ commit.timestamp ++ " " ++ commit.subject

/-- The commit that a line shows. -/
def Commit.ofLine? (line : String) : Option Commit := do
  let (name, rest) ← cut? ' ' line.toList
  let (timestamp, subject) ← cut? ' ' rest
  if timestamp.isEmpty then failure
  let id ← (CommitId.parse (String.ofList name)).toOption
  return ⟨id, String.ofList timestamp, String.ofList subject⟩

/-- The commits that the filled lines of a listing show, or the first line that
shows none. -/
def Commit.ofLines : List String → Except String (List Commit)
  | [] => .ok []
  | line :: rest =>
    match Commit.ofLine? line with
    | none => .error line
    | some commit => (Commit.ofLines rest).map (commit :: ·)

/-- A printed commit is read back, provided that its timestamp is one word. -/
theorem Commit.ofLine?_line {commit : Commit} (filled : commit.timestamp ≠ "")
    (word : ' ' ∉ commit.timestamp.toList) : Commit.ofLine? commit.line = some commit := by
  have name : ' ' ∉ commit.id.text.toList := fun h => by
    have := ((CommitId.flaw?_eq_none_iff.1 commit.id.wellFormed).2.2.2 ' ' h).1
    revert this; decide
  have first : cut? ' ' commit.line.toList =
      some (commit.id.text.toList, commit.timestamp.toList ++ ' ' :: commit.subject.toList) :=
    cut?_eq_some_iff.2 ⟨by simp [Commit.line], name⟩
  have second : cut? ' ' (commit.timestamp.toList ++ ' ' :: commit.subject.toList) =
      some (commit.timestamp.toList, commit.subject.toList) :=
    cut?_eq_some_iff.2 ⟨rfl, word⟩
  simp [Commit.ofLine?, first, second, filled, Except.toOption]

/-- A line that is read is the printed form of its commit, which has a timestamp. -/
theorem Commit.line_of_ofLine? {line : String} {commit : Commit}
    (h : Commit.ofLine? line = some commit) :
    commit.line = line ∧ commit.timestamp ≠ "" ∧ ' ' ∉ commit.timestamp.toList := by
  simp only [Commit.ofLine?, Option.bind_eq_bind, Option.bind_eq_some_iff, Prod.exists] at h
  obtain ⟨name, rest, hname, timestamp, subject, hrest, h⟩ := h
  obtain ⟨hline, -⟩ := cut?_eq_some_iff.1 hname
  obtain ⟨rfl, hspace⟩ := cut?_eq_some_iff.1 hrest
  cases timestamp with
  | nil => simp [failure] at h
  | cons c timestamp =>
    simp only [List.isEmpty_cons, Bool.false_eq_true, if_false, Option.pure_def,
      Option.bind_eq_some_iff, Option.some.injEq] at h
    obtain ⟨id, hid, rfl⟩ := h
    have hid : CommitId.parse (String.ofList name) = .ok id := by
      revert hid
      cases CommitId.parse (String.ofList name) <;> simp [Except.toOption]
    rw [CommitId.parse_eq_ok_iff] at hid
    refine ⟨?_, by simp, by simpa using hspace⟩
    apply String.ext
    simp [Commit.line, hid, hline]

end LocaleWatch
