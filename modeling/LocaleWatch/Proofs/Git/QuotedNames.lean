import LocaleWatch.Proofs.Git.Trees

/-!
# Names in listings

The version-control program prints names in two ways. Where each ends with a NUL character, it
prints them as they are. Where each is a line, a name that has a quote, a backslash or a control
character is put between quotes, and these characters are escaped.

What belongs to the branch is listed in the first way, and what commits changed in the second. The
lines are taken for the names, and the quotes are not taken away. So a file with such a name is
known by another name when a commit changes it, and what is kept about it is kept under another key
than the one that is dropped: a key has as many quotes as the text that it belongs to.

## Main results

* `Path.count_key` — a key has the characters of its text, but for separators and full stops.
* `GitRepository.listed_names_iff` — which names are the same in every listing.
-/

namespace LocaleWatch

open Text

/-! ## Quoted names -/

/-- Whether a character is escaped where a name is a line: it is a quote, a backslash or a control
character. Other characters are printed as they are, also those beyond ASCII. -/
def IsEscaped (c : Char) : Prop :=
  c = '"' ∨ c = '\\' ∨ c.toNat < 0x20 ∨ c.toNat = 0x7F

instance : DecidablePred IsEscaped := fun c =>
  inferInstanceAs (Decidable (c = '"' ∨ c = '\\' ∨ c.toNat < 0x20 ∨ c.toNat = 0x7F))

/-- Three octal digits. -/
def octal (n : Nat) : List Char :=
  [Nat.digitChar (n / 64 % 8), Nat.digitChar (n / 8 % 8), Nat.digitChar (n % 8)]

/-- The escapes of characters that have a letter of their own. -/
def letterOf? (c : Char) : Option Char :=
  [('"', '"'), ('\\', '\\'), ('\x07', 'a'), ('\x08', 'b'), ('\t', 't'), ('\n', 'n'), ('\x0b', 'v'),
    ('\x0c', 'f'), ('\r', 'r')].lookup c

/-- A character of a name between quotes. -/
def written (c : Char) : List Char :=
  if IsEscaped c then '\\' :: ((letterOf? c).map ([·])).getD (octal c.toNat) else [c]

/-- Whether a name is printed between quotes. -/
def IsQuoted (name : String) : Prop := ∃ c ∈ name.toList, IsEscaped c

instance : DecidablePred IsQuoted := fun name => List.decidableBEx IsEscaped name.toList

/-- A name as it is printed in a line. -/
def printedName (name : String) : String :=
  if IsQuoted name then String.ofList ('"' :: (name.toList.flatMap written ++ ['"'])) else name

theorem IsEscaped.toNat_lt {c : Char} (escaped : IsEscaped c) : c.toNat < 0x80 := by
  obtain rfl | rfl | low | last := escaped
  · decide
  · decide
  · omega
  · omega

/-- An escape has a quote only for a quote, and it has no line feed. -/
theorem count_written (c : Char) :
    (written c).count '"' = [c].count '"' ∧ '\n' ∉ written c := by
  by_cases escaped : IsEscaped c
  · have each : ∀ n < 0x80, (written (Char.ofNat n)).count '"' = [Char.ofNat n].count '"' ∧
        '\n' ∉ written (Char.ofNat n) := by
      decide +kernel
    simpa only [Char.ofNat_toNat] using each c.toNat escaped.toNat_lt
  · rw [written, if_neg escaped, List.mem_singleton]
    refine ⟨rfl, ?_⟩
    rintro rfl
    exact escaped (by decide)

variable {name : String}

theorem toList_printedName (quoted : IsQuoted name) :
    (printedName name).toList = '"' :: (name.toList.flatMap written ++ ['"']) := by
  rw [printedName, if_pos quoted, String.toList_ofList]

/-- Quoting adds two quotes. -/
theorem count_printedName (quoted : IsQuoted name) :
    (printedName name).toList.count '"' = name.toList.count '"' + 2 := by
  have inner (characters : List Char) :
      (characters.flatMap written).count '"' = characters.count '"' := by
    induction characters with
    | nil => rfl
    | cons c rest ih =>
      rw [List.flatMap_cons, List.count_append, ih, (count_written c).1, ← List.count_append,
        List.singleton_append]
  rw [toList_printedName quoted, List.count_cons_self, List.count_append, inner]
  rfl

/-- A printed name is a line. -/
theorem line_printedName (filled : name ≠ "") :
    printedName name ≠ "" ∧ '\n' ∉ (printedName name).toList ∧
      (printedName name).toList.getLast? ≠ some '\r' := by
  by_cases quoted : IsQuoted name
  · have shape := toList_printedName quoted
    refine ⟨?_, ?_, ?_⟩
    · rintro empty
      rw [empty] at shape
      simp at shape
    · rw [shape]
      simp only [List.mem_cons, List.mem_append, List.mem_flatMap, List.not_mem_nil, or_false,
        not_or, not_exists, not_and]
      exact ⟨by decide, fun c _ => (count_written c).2, by decide⟩
    · rw [shape, ← List.cons_append, List.getLast?_concat]
      decide
  · have plain (c : Char) (escaped : IsEscaped c) : c ∉ name.toList :=
      fun mem => quoted ⟨c, mem, escaped⟩
    rw [printedName, if_neg quoted]
    exact ⟨filled, plain '\n' (by decide), fun last =>
      plain '\r' (by decide) (List.mem_of_getLast? last)⟩

/-- Only a name that needs no quotes is printed as it is. -/
theorem printedName_eq_iff : printedName name = name ↔ ¬ IsQuoted name := by
  constructor
  · intro same quoted
    have more := count_printedName quoted
    rw [same] at more
    omega
  · exact fun plain => if_neg plain

/-! ## Keys of texts -/

namespace Path

variable {c : Char}

theorem count_intercalate (other : c ≠ '/') (pieces : List (List Char)) :
    (['/'].intercalate pieces).count c = pieces.flatten.count c := by
  induction pieces with
  | nil => rfl
  | cons piece rest ih =>
    cases rest with
    | nil => simp
    | cons next more =>
      have separator : ['/'].count c = 0 := by simp [Ne.symm other]
      rw [List.flatten_cons, List.count_append, ← ih, List.intercalate_cons_cons,
        List.count_append, List.count_append, separator, Nat.add_zero]

/-- A key has the characters of its text, but for separators and full stops. -/
theorem count_key (other : c ≠ '/') (noStop : c ≠ '.') (text : String) :
    (ofText text).key.toList.count c = text.toList.count c := by
  have kept (pieces : List (List Char)) :
      (pieces.filter fun piece => piece ≠ [] ∧ piece ≠ ['.']).flatten.count c =
        pieces.flatten.count c := by
    induction pieces with
    | nil => rfl
    | cons piece rest ih =>
      rw [List.flatten_cons, List.count_append, ← ih]
      by_cases skipped : piece ≠ [] ∧ piece ≠ ['.']
      · rw [List.filter_cons_of_pos (by simpa using skipped), List.flatten_cons, List.count_append]
      · have none : piece.count c = 0 := by
          obtain rfl | rfl : piece = [] ∨ piece = ['.'] := by
            simpa [or_iff_not_imp_left] using skipped
          · rfl
          · simp [Ne.symm noStop]
        rw [List.filter_cons_of_neg (by simpa using skipped), none, Nat.zero_add]
  have lead :
      ((if text.toList.head? = some '/' then ["/"] else []).map String.toList).flatten.count c =
        0 := by
    split
    · simp [Ne.symm other]
    · rfl
  have inner : (names text).map String.toList =
      (text.toList.splitOn '/').filter fun piece => piece ≠ [] ∧ piece ≠ ['.'] := by
    simp [names, Function.comp_def]
  have whole : text.toList.count c = (text.toList.splitOn '/').flatten.count c := by
    rw [← count_intercalate other, List.intercalate_splitOn]
  rw [key_ofText, String.toList_intercalate, whole, ← kept, ← inner]
  show (['/'].intercalate _).count c = _
  rw [count_intercalate other, List.map_append, List.flatten_append, List.count_append, lead,
    Nat.zero_add]

/-- A file of the repository has its own path for a key. -/
theorem key_intercalate {parts : List String} (proper : ∀ part ∈ parts, IsPart part) :
    (ofText ("/".intercalate parts)).key = "/".intercalate parts := by
  rw [key_ofText, if_neg (head?_intercalate proper), List.nil_append, names_intercalate proper]

end Path

/-- What is kept under a name is dropped where the name is printed exactly if it needs no quotes. -/
theorem key_printedName_iff :
    (Path.ofText (printedName name)).key = (Path.ofText name).key ↔ ¬ IsQuoted name := by
  constructor
  · intro same quoted
    have counts := congrArg (fun key : String => key.toList.count '"') same
    simp only [Path.count_key (c := '"') (by decide) (by decide), count_printedName quoted]
      at counts
    omega
  · intro plain
    rw [printedName_eq_iff.2 plain]

/-! ## Listings -/

namespace FileList

variable (list : FileList)

/-- The paths of the files. -/
def paths : List String := list.files.map ("/".intercalate ·)

theorem entry {path : String} (mem : path ∈ list.paths) : path ≠ "" ∧ '\x00' ∉ path.toList := by
  obtain ⟨file, isIn, rfl⟩ := List.mem_map.1 mem
  exact list.entry_of_mem isIn

theorem key_path {path : String} (mem : path ∈ list.paths) : (Path.ofText path).key = path := by
  obtain ⟨file, isIn, rfl⟩ := List.mem_map.1 mem
  exact Path.key_intercalate (list.isPart isIn)

/-- What is read from the lines that the files are printed in. -/
theorem filledLines_printed :
    filledLines (ended '\n' (list.paths.map printedName)) = list.paths.map printedName := by
  have line (name : String) (mem : name ∈ list.paths.map printedName) :
      name ≠ "" ∧ '\n' ∉ name.toList ∧ name.toList.getLast? ≠ some '\r' := by
    obtain ⟨path, isIn, rfl⟩ := List.mem_map.1 mem
    exact line_printedName (list.entry isIn).1
  exact filledLines_ended (fun name mem => (line name mem).1) (fun name mem => (line name mem).2.1)
    fun name mem => (line name mem).2.2

theorem printed_eq_iff :
    list.paths.map printedName = list.paths ↔ ∀ path ∈ list.paths, ¬ IsQuoted path := by
  have same : list.paths.map printedName = list.paths ↔
      list.paths.map printedName = list.paths.map id := by
    rw [List.map_id]
  rw [same, List.map_inj_left]
  exact forall₂_congr fun path _ => printedName_eq_iff

end FileList

namespace GitRepository

variable {σ : Type}

/-- The files that commits changed are given as they are printed in lines. So they have the names
that they have in the branch and in the working copy exactly if no name has quotes, and what is kept
about a file is dropped under its key exactly if its name has none. -/
theorem listed_names_iff (repository : GitRepository) (handler : Program.Handler Host σ)
    (list : FileList) (goesOn : ∀ state, (handler .isCancelled state).1 = false)
    (commit first last : CommitId) (operation path : String) (flags : List String)
    {complaint : List UInt8}
    (prints : ∀ query ∈ [Query.filesIn commit, .filesBetween first last], ∀ state,
      (handler (.git (.within repository.workingCopy (repository.commandLine query))) state).1 =
        .ok ⟨0, bytes (ended '\n' (list.paths.map printedName)), complaint⟩)
    (lists : ∀ state, (handler (.git (.within repository.workingCopy
      (["ls-tree", "-z", "--name-only", "--full-tree"] ++ flags ++
        [repository.branch, "--", path]))) state).1 =
      .ok ⟨0, bytes (ended '\x00' list.paths), complaint⟩) (state : σ) :
    ((repository.answer (.filesIn commit)).run.run handler state).1 =
        .ok (list.paths.map printedName) ∧
      ((repository.answer (.filesBetween first last)).run.run handler state).1 =
        .ok (list.paths.map printedName) ∧
      (list.paths.map printedName = list.paths ↔ ∀ path ∈ list.paths, ¬ IsQuoted path) ∧
      ((repository.treeEntries operation flags path).run.run handler state).1 = .ok list.paths ∧
      (∀ found : Listing, found.located? = some (list.files.map fun file => file.map bytes) →
        found.files operation = .ok (ascending list.paths)) ∧
      ∀ path ∈ list.paths, (Path.ofText path).key = path ∧
        ((Path.ofText (printedName path)).key = path ↔ ¬ IsQuoted path) := by
  have read (query : Query) (mem : query ∈ [Query.filesIn commit, .filesBetween first last])
      (runs : repository.Runs query) :
      ((repository.answer query).run.run handler state).1 = repository.reading query
        ⟨0, bytes (ended '\n' (list.paths.map printedName)), complaint⟩ :=
    repository.result_of_printed runs goesOn (prints query mem)
  refine ⟨?_, ?_, list.printed_eq_iff, ?_, fun found located => ?_, fun path mem => ?_⟩
  · rw [read (.filesIn commit) (by simp) trivial]
    simp only [reading]
    rw [concluded_bind rfl, lossyText_bytes, list.filledLines_printed]
    rfl
  · rw [read (.filesBetween first last) (by simp) trivial]
    simp only [reading]
    rw [concluded_bind rfl, lossyText_bytes, list.filledLines_printed]
    rfl
  · rw [run_treeEntries rfl, run_oneRun goesOn lists, concluded_bind rfl, lossyText_bytes,
      entries_ended (fun path mem => (list.entry mem).1) (fun path mem => (list.entry mem).2)]
    rfl
  · exact Listing.files_of_located (fun file => list.isPart) located (List.Perm.refl _)
  · have own := list.key_path mem
    refine ⟨own, ?_⟩
    rw [← key_printedName_iff, own]

end GitRepository

/-- Two pages, one of which has quotes in its name. -/
def FileList.greeting : FileList where
  files := [["content", "en", "say \"hi\".md"], ["content", "en", "plain.md"]]
  below := by decide
  proper := by unfold Path.IsPart; decide

/-- A machine where commits change these pages and the branch has them. -/
def Machine.greeting : Machine where
  files := .empty
  directory := []
  rules := some [
    ⟨"diff", ⟨0, bytes (ended '\n' (FileList.greeting.paths.map printedName)), []⟩, none⟩,
    ⟨"ls-tree", ⟨0, bytes (ended '\x00' FileList.greeting.paths), []⟩, none⟩]

namespace GitRepository

/-- A page with quotes in its name is listed with more of them where a commit changed it, and its
entries are not dropped. -/
theorem listed_names_iff_greeting :
    let repository : GitRepository := ⟨Path.ofText "/r/", "origin", "main", true⟩
    let commit : CommitId := ⟨"c2", by decide⟩
    ((repository.answer (.filesIn commit)).run.run Machine.greeting.still ()).1 =
        .ok ["\"content/en/say \\\"hi\\\".md\"", "content/en/plain.md"] ∧
      ((repository.treeEntries "list_files" ["-r"] "content/en").run.run
          Machine.greeting.still ()).1 =
        .ok ["content/en/say \"hi\".md", "content/en/plain.md"] ∧
      (Path.ofText "\"content/en/say \\\"hi\\\".md\"").key ≠ "content/en/say \"hi\".md" := by
  intro repository commit
  have prints : ∀ query ∈ [Query.filesIn commit, .filesBetween commit commit], ∀ state,
      (Machine.greeting.still (.git (.within repository.workingCopy
        (repository.commandLine query))) state).1 =
      .ok ⟨0, bytes (ended '\n' (FileList.greeting.paths.map printedName)), []⟩ := by
    have diffs : ∀ query ∈ [Query.filesIn commit, .filesBetween commit commit],
        (Machine.greeting.git (.within repository.workingCopy (repository.commandLine query))).1 =
        .ok ⟨0, bytes (ended '\n' (FileList.greeting.paths.map printedName)), []⟩ := by
      decide +kernel
    exact fun query mem _ => diffs query mem
  have lists : (Machine.greeting.git (.within repository.workingCopy
      (["ls-tree", "-z", "--name-only", "--full-tree"] ++ ["-r"] ++
        [repository.branch, "--", "content/en"]))).1 =
      .ok ⟨0, bytes (ended '\x00' FileList.greeting.paths), []⟩ := by
    decide +kernel
  have listed := listed_names_iff repository Machine.greeting.still .greeting (fun _ => rfl)
    commit commit commit "list_files" "content/en" ["-r"] prints (fun _ => lists) ()
  have printed : FileList.greeting.paths.map printedName =
      ["\"content/en/say \\\"hi\\\".md\"", "content/en/plain.md"] := by
    decide +kernel
  have paths : FileList.greeting.paths = ["content/en/say \"hi\".md", "content/en/plain.md"] := by
    decide +kernel
  have key := listed.2.2.2.2.2 "content/en/say \"hi\".md" (by decide +kernel)
  refine ⟨printed ▸ listed.1, paths ▸ listed.2.2.2.1, fun same => ?_⟩
  have shown : printedName "content/en/say \"hi\".md" = "\"content/en/say \\\"hi\\\".md\"" := by
    decide +kernel
  exact key.2.1 (shown ▸ same) (by decide +kernel)

end GitRepository

end LocaleWatch
