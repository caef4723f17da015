import LocaleWatch.Proofs.Files.TextPaths
import LocaleWatch.Proofs.Git.Outcomes

/-!
# Listings of commits are read back

A listing has one commit per line. The name of a commit has no space and neither has a timestamp,
so a line is cut where it was put together, whatever the subject holds. Two characters could still
spoil a line: a line feed, which would end it, and a carriage return at its end, which would be
taken for a part of the end. Only subjects can end a line, and it is enough that they do not end in
one.

A listing is read as a whole or not at all. Its lines either all have the form, and then they are
the lines of the commits that are read, or the first that has not is named.

## Main results

* `Commit.isLine_iff` — which lines are read.
* `listing_round_trip` — reading a listing undoes printing it, and printing undoes reading.
-/

namespace LocaleWatch

open Text

namespace Commit

/-- Whether a line has the form in which commits are printed: the name of a commit, a space, a
timestamp that is one word, a space, and whatever remains. -/
def IsLine (line : String) : Prop :=
  ∃ name timestamp subject : String, CommitId.flaw? name = none ∧ timestamp ≠ "" ∧
    ' ' ∉ timestamp.toList ∧ line = name ++ " " ++ timestamp ++ " " ++ subject

/-- Whether the printed form of a commit is one line, from which it can be read. -/
structure FitsLine (commit : Commit) : Prop where
  filled : commit.timestamp ≠ ""
  word : ' ' ∉ commit.timestamp.toList
  timestampOpen : '\n' ∉ commit.timestamp.toList
  subjectOpen : '\n' ∉ commit.subject.toList
  noReturn : commit.subject.toList.getLast? ≠ some '\r'

/-- The lines that are read are those that have the form. -/
theorem isLine_iff {line : String} : IsLine line ↔ ofLine? line ≠ none := by
  constructor
  · rintro ⟨name, timestamp, subject, wellFormed, filled, word, rfl⟩
    let commit : Commit := ⟨⟨name, wellFormed⟩, timestamp, subject⟩
    have read : ofLine? commit.line = some commit := ofLine?_line filled word
    rw [line] at read
    rw [read]
    exact Option.some_ne_none _
  · intro read
    obtain ⟨commit, shown⟩ := Option.ne_none_iff_exists'.1 read
    obtain ⟨rfl, filled, word⟩ := line_of_ofLine? shown
    exact ⟨commit.id.text, commit.timestamp, commit.subject, commit.id.wellFormed, filled, word,
      rfl⟩

variable {commit : Commit}

/-- No name of a commit has a line feed. -/
theorem newline_not_mem_id (id : CommitId) : '\n' ∉ id.text.toList := by
  intro mem
  have blank := ((CommitId.flaw?_eq_none_iff.1 id.wellFormed).2.2.2 '\n' mem).1
  exact absurd blank (by decide)

/-- A commit that fits one line has no line feed in it. -/
theorem FitsLine.newline_not_mem (fits : commit.FitsLine) : '\n' ∉ commit.line.toList := by
  simp only [line, String.toList_append, List.mem_append, not_or]
  exact ⟨⟨⟨⟨newline_not_mem_id commit.id, by decide⟩, fits.timestampOpen⟩, by decide⟩,
    fits.subjectOpen⟩

/-- The line of a commit ends with its subject, or with a space. -/
theorem FitsLine.getLast?_ne (fits : commit.FitsLine) :
    commit.line.toList.getLast? ≠ some '\r' := by
  rw [line, String.toList_append, List.getLast?_append, String.toList_append, List.getLast?_append]
  cases last : commit.subject.toList.getLast? with
  | none => simp
  | some c => simpa [last] using fits.noReturn

end Commit

/-- Lines of which the filled ones are those of commits are read as the commits. -/
theorem readCommits_printed {operation : String} {commits : List Commit} {printed : List String}
    (fits : ∀ commit ∈ commits, commit.FitsLine)
    (filled : printed.filter (· ≠ "") = commits.map Commit.line) :
    readCommits operation (ended '\n' printed) = .ok commits := by
  have each (line : String) (mem : line ∈ printed) :
      line = "" ∨ ∃ commit ∈ commits, commit.line = line := by
    by_cases empty : line = ""
    · exact .inl empty
    · have kept : line ∈ printed.filter (· ≠ "") := List.mem_filter.2 ⟨mem, by simpa using empty⟩
      rw [filled] at kept
      exact .inr (List.mem_map.1 kept)
  have whole (line : String) (mem : line ∈ printed) : '\n' ∉ line.toList := by
    rcases each line mem with rfl | ⟨commit, isIn, rfl⟩
    · exact List.not_mem_nil
    · exact (fits commit isIn).newline_not_mem
  have open_ (line : String) (mem : line ∈ printed) : line.toList.getLast? ≠ some '\r' := by
    rcases each line mem with rfl | ⟨commit, isIn, rfl⟩
    · exact nofun
    · exact (fits commit isIn).getLast?_ne
  refine readCommits_eq_ok_iff.2 ⟨?_, fun commit mem => ⟨(fits commit mem).filled,
    (fits commit mem).word⟩⟩
  rw [filledLines_ended_eq_filter whole open_, filled]

/-- Reading a listing of commits undoes printing it, and printing undoes reading.

Commits whose timestamps are words and whose subjects end no line are printed one per line, with
any number of empty lines before, between and behind them. Then the listing is read as these
commits, in order and with every field. Conversely the filled lines of any text that is read are
the printed lines of the commits, in order. A text is read exactly if all its filled lines have the
form of a commit's; otherwise the first one that has not is named, together with the operation that
printed the text. -/
theorem listing_round_trip (operation : String) :
    (∀ (commits : List Commit) (printed : List String),
      (∀ commit ∈ commits, commit.FitsLine) →
      printed.filter (· ≠ "") = commits.map Commit.line →
      readCommits operation (ended '\n' printed) = .ok commits) ∧
    ∀ text : String,
      (∀ commits, readCommits operation text = .ok commits →
        filledLines text = commits.map Commit.line ∧
          ∀ commit ∈ commits, commit.timestamp ≠ "" ∧ ' ' ∉ commit.timestamp.toList) ∧
      ((∀ line ∈ filledLines text, Commit.IsLine line) →
        ∃ commits, readCommits operation text = .ok commits) ∧
      ((∃ line ∈ filledLines text, ¬ Commit.IsLine line) →
        ∃ before line behind, filledLines text = before ++ line :: behind ∧
          (∀ earlier ∈ before, Commit.IsLine earlier) ∧ ¬ Commit.IsLine line ∧
          readCommits operation text = .error (.malformed operation line)) := by
  refine ⟨fun commits printed fits filled => readCommits_printed fits filled,
    fun text => ⟨fun commits read => readCommits_eq_ok_iff.1 read, fun lines => ?_, ?_⟩⟩
  · by_contra unread
    have broken (commits : List Commit) : ¬ Lists text commits :=
      fun listed => unread ⟨commits, readCommits_eq_ok_iff.2 listed⟩
    obtain ⟨before, line, behind, cut, shows, -, -⟩ := readCommits_malformed broken
    exact Commit.isLine_iff.1 (lines line (by simp [cut])) shows
  · rintro ⟨bad, mem, noLine⟩
    have broken (commits : List Commit) : ¬ Lists text commits := by
      rintro ⟨lines, words⟩
      rw [lines] at mem
      obtain ⟨commit, isIn, rfl⟩ := List.mem_map.1 mem
      obtain ⟨filled, word⟩ := words commit isIn
      exact noLine ⟨commit.id.text, commit.timestamp, commit.subject, commit.id.wellFormed, filled,
        word, rfl⟩
    obtain ⟨before, line, behind, cut, shows, earlier, refused⟩ := readCommits_malformed broken
    refine ⟨before, line, behind, cut, fun other isIn => ?_, ?_, refused operation⟩
    · exact Commit.isLine_iff.2 (earlier other isIn)
    · exact fun isLine => Commit.isLine_iff.1 isLine shows

/-- Two commits are read from a listing with empty lines, one of them without a subject; and a line
without a second space is the first of two that are refused. -/
theorem listing_round_trip_gaps :
    let first : Commit := ⟨⟨"c2", by decide⟩, "2024-01-02\r", ""⟩
    let second : Commit := ⟨⟨"c1", by decide⟩, "2024-01-01", "two  words "⟩
    readCommits "log" (ended '\n' ["", first.line, "", "", second.line]) = .ok [first, second] ∧
      ∃ before line behind, filledLines "c2 now ok\r\n\nc1 then\ngarbage" =
          before ++ line :: behind ∧
        (∀ earlier ∈ before, Commit.IsLine earlier) ∧ ¬ Commit.IsLine line ∧
        readCommits "log" "c2 now ok\r\n\nc1 then\ngarbage" = .error (.malformed "log" line) := by
  intro first second
  have reads := (listing_round_trip "log").1 [first, second] ["", first.line, "", "", second.line]
  have refuses := ((listing_round_trip "log").2 "c2 now ok\r\n\nc1 then\ngarbage").2.2
  have fits : first.FitsLine ∧ second.FitsLine := by
    constructor <;> constructor <;> decide +kernel
  refine ⟨reads (by simpa using fits) (by decide +kernel), refuses ⟨"c1 then", ?_, ?_⟩⟩
  · decide +kernel
  · rw [Commit.isLine_iff]
    decide +kernel

end LocaleWatch
