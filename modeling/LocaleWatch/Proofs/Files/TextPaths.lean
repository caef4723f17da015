import LocaleWatch.Layout
import LocaleWatch.Proofs.Files.Names

/-!
# Paths that are text

What bytes are text was written as that text, so a path that is text is the path of one text only.
Its separators are those of the text: no other character has the byte of a separator. So its
components are the names that stand between the separators of the text.

A program that prints names ends each with a character that none of them holds; then the names are
read back as they are.

## Main results

* `Text.text?_eq_some_iff` — bytes are read as the text that they are written as.
* `Text.entries_ended`, `Text.filledLines_ended` — names that are printed one by one are read back.
* `Path.components_ofText`, `Path.key_ofText` — the components of a text, and its key.
* `Path.names_intercalate` — names that are joined by separators are the names of that text.
* `Path.isPart_text` — a component that leads to an entry is shown as a name.
-/

namespace LocaleWatch

open Text

namespace Text

/-! ## Bytes that are text -/

/-- The bytes that a symbol was read from. -/
def Symbol.bytes : Symbol → List UInt8
  | .char c => String.utf8EncodeChar c
  | .malformed run => run

section

variable {a b c d : UInt8}

private theorem range_of_width (a : UInt8) :
    (width a = 1 → a.toNat < 0x80) ∧ (width a = 2 → 0xC2 ≤ a.toNat ∧ a.toNat < 0xE0) ∧
      (width a = 3 → 0xE0 ≤ a.toNat ∧ a.toNat < 0xF0) ∧
      (width a = 4 → 0xF0 ≤ a.toNat ∧ a.toNat < 0xF5) := by
  unfold width
  simp only [UInt8.lt_iff_toNat_lt, UInt8.reduceToNat]
  repeat' split
  all_goals omega

private theorem range_of_isContinuation (continues : isContinuation b = true) :
    0x80 ≤ b.toNat ∧ b.toNat < 0xC0 := by
  simp only [isContinuation, Bool.and_eq_true, decide_eq_true_eq, UInt8.le_iff_toNat_le,
    UInt8.reduceToNat] at continues
  omega

private theorem range_of_isSecond (second : isSecond a b = true) :
    0x80 ≤ b.toNat ∧ b.toNat < 0xC0 ∧ (a.toNat = 0xE0 → 0xA0 ≤ b.toNat) ∧
      (a.toNat = 0xED → b.toNat < 0xA0) ∧ (a.toNat = 0xF0 → 0x90 ≤ b.toNat) ∧
      (a.toNat = 0xF4 → b.toNat < 0x90) := by
  simp only [isSecond, isContinuation, ← UInt8.toNat_inj, UInt8.reduceToNat] at second
  repeat' split at second
  all_goals
    simp only [Bool.and_eq_true, decide_eq_true_eq, UInt8.le_iff_toNat_le, UInt8.reduceToNat]
      at second
    omega

/-- The bytes of the character with a number. -/
private theorem utf8EncodeChar_ofNat {n : Nat} (valid : n.isValidChar) :
    String.utf8EncodeChar (Char.ofNat n) =
      if n ≤ 0x7F then [UInt8.ofNat n]
      else if n ≤ 0x7FF then [UInt8.ofNat (n / 64 % 32 + 192), UInt8.ofNat (n % 64 + 128)]
      else if n ≤ 0xFFFF then
        [UInt8.ofNat (n / 4096 % 16 + 224), UInt8.ofNat (n / 64 % 64 + 128),
          UInt8.ofNat (n % 64 + 128)]
      else
        [UInt8.ofNat (n / 262144 % 8 + 240), UInt8.ofNat (n / 4096 % 64 + 128),
          UInt8.ofNat (n / 64 % 64 + 128), UInt8.ofNat (n % 64 + 128)] := by
  have number : (Char.ofNat n).val.toNat = n := by
    rw [Char.ofNat, dif_pos valid]
    rfl
  simp only [String.utf8EncodeChar, number]

private theorem ofNat_eq {n : Nat} (same : n = a.toNat) : UInt8.ofNat n = a := by
  rw [same, UInt8.ofNat_toNat]

private theorem encode_one (one : width a = 1) :
    String.utf8EncodeChar (Char.ofNat a.toNat) = [a] := by
  have first := (range_of_width a).1 one
  rw [utf8EncodeChar_ofNat (by unfold Nat.isValidChar; omega), if_pos (by omega), ofNat_eq rfl]

private theorem encode_two (two : width a = 2) (second : isSecond a b = true) :
    String.utf8EncodeChar (Char.ofNat ((a.toNat - 0xC0) * 0x40 + payload b)) = [a, b] := by
  have first := (range_of_width a).2.1 two
  have next := range_of_isSecond second
  unfold payload
  rw [utf8EncodeChar_ofNat (by unfold Nat.isValidChar; omega), if_neg (by omega),
    if_pos (by omega), ofNat_eq (a := a) (by omega), ofNat_eq (a := b) (by omega)]

private theorem encode_three (three : width a = 3) (second : isSecond a b = true)
    (third : isContinuation c = true) :
    String.utf8EncodeChar
      (Char.ofNat ((a.toNat - 0xE0) * 0x1000 + payload b * 0x40 + payload c)) = [a, b, c] := by
  have first := (range_of_width a).2.2.1 three
  have next := range_of_isSecond second
  have last := range_of_isContinuation third
  unfold payload
  rw [utf8EncodeChar_ofNat (by unfold Nat.isValidChar; omega), if_neg (by omega),
    if_neg (by omega), if_pos (by omega), ofNat_eq (a := a) (by omega),
    ofNat_eq (a := b) (by omega), ofNat_eq (a := c) (by omega)]

private theorem encode_four (four : width a = 4) (second : isSecond a b = true)
    (third : isContinuation c = true) (fourth : isContinuation d = true) :
    String.utf8EncodeChar (Char.ofNat ((a.toNat - 0xF0) * 0x40000 + payload b * 0x1000 +
      payload c * 0x40 + payload d)) = [a, b, c, d] := by
  have first := (range_of_width a).2.2.2 four
  have next := range_of_isSecond second
  have more := range_of_isContinuation third
  have last := range_of_isContinuation fourth
  unfold payload
  rw [utf8EncodeChar_ofNat (by unfold Nat.isValidChar; omega), if_neg (by omega),
    if_neg (by omega), if_neg (by omega), ofNat_eq (a := a) (by omega),
    ofNat_eq (a := b) (by omega), ofNat_eq (a := c) (by omega), ofNat_eq (a := d) (by omega)]

end

/-- The symbols of an input are made of all its bytes. -/
theorem bytes_symbols (input : List UInt8) : (symbols input).flatMap Symbol.bytes = input := by
  fun_induction symbols input
  all_goals simp_all [Symbol.bytes, encode_one, encode_two, encode_three, encode_four]

theorem eq_map_of_mapM_char? {read : List Symbol} {characters : List Char}
    (found : read.mapM Symbol.char? = some characters) : read = characters.map Symbol.char := by
  induction read generalizing characters with
  | nil => simp_all
  | cons symbol rest ih =>
    rw [List.mapM_cons] at found
    cases symbol with
    | malformed run => simp [Symbol.char?] at found
    | char c =>
      obtain ⟨more, later, same⟩ : ∃ more, rest.mapM Symbol.char? = some more ∧
          some (c :: more) = some characters := Option.bind_eq_some_iff.1 found
      rw [ih later, ← Option.some.inj same, List.map_cons]

/-- Bytes are read as the text that they are written as. -/
theorem text?_eq_some_iff {input : List UInt8} {text : String} :
    text? input = some text ↔ input = bytes text := by
  constructor
  · intro read
    obtain ⟨characters, found, rfl⟩ := Option.map_eq_some_iff.1 read
    have whole := bytes_symbols input
    rw [eq_map_of_mapM_char? found, List.flatMap_map] at whole
    rw [bytes, String.toList_ofList, encode]
    exact whole.symm
  · rintro rfl
    exact text?_bytes text

/-- A character that is shown, and does not stand for bytes that are no text, was read. -/
theorem char_mem_symbols {input : List UInt8} {c : Char} (mem : c ∈ (lossyText input).toList)
    (other : c ≠ '\uFFFD') : Symbol.char c ∈ symbols input := by
  rw [lossyText, String.toList_ofList] at mem
  obtain ⟨symbol, isIn, shown⟩ := List.mem_map.1 mem
  cases symbol with
  | char d => exact (show d = c from shown) ▸ isIn
  | malformed run => exact absurd shown.symm other

/-- What is shown without U+FFFD was read as it is. -/
theorem bytes_lossyText {input : List UInt8} (whole : '\uFFFD' ∉ (lossyText input).toList) :
    bytes (lossyText input) = input := by
  rw [lossyText, String.toList_ofList] at whole
  rw [bytes, lossyText, String.toList_ofList, encode, List.flatMap_map]
  refine Eq.trans (List.flatMap_congr fun symbol mem => ?_) (bytes_symbols input)
  cases symbol with
  | char c => rfl
  | malformed run => exact absurd (List.mem_map.2 ⟨_, mem, rfl⟩) whole

/-! ## Pieces of text -/

/-- Cutting at a separator is what the library does. -/
theorem split_eq_splitOn (separator : Char) (text : List Char) :
    split separator text = text.splitOn separator := by
  induction text with
  | nil => rfl
  | cons c rest ih =>
    rw [split, List.splitOn_cons_eq_if_modifyHead, ih]
    by_cases same : c = separator
    · simp [same]
    · cases pieces : rest.splitOn separator with
      | nil => exact absurd pieces (List.splitOn_ne_nil separator rest)
      | cons piece more => simp [same]

/-! ## Printed names -/

/-- Names that are printed one by one, each with a character at its end. -/
def ended (terminator : Char) (names : List String) : String :=
  String.ofList (names.flatMap fun name => name.toList ++ [terminator])

theorem split_ended {terminator : Char} {names : List String}
    (whole : ∀ name ∈ names, terminator ∉ name.toList) :
    split terminator (ended terminator names).toList = names.map String.toList ++ [[]] := by
  rw [ended, String.toList_ofList, split_eq_splitOn]
  induction names with
  | nil => rfl
  | cons name rest ih =>
    obtain ⟨first, others⟩ := List.forall_mem_cons.1 whole
    rw [List.flatMap_cons, List.append_assoc, List.singleton_append,
      List.splitOn_append_cons_self_of_not_mem first, ih others, List.map_cons, List.cons_append]

/-- Names that are printed with NUL characters are read back. -/
theorem entries_ended {names : List String} (filled : ∀ name ∈ names, name ≠ "")
    (whole : ∀ name ∈ names, '\x00' ∉ name.toList) : entries (ended '\x00' names) = names := by
  have kept : names.filter (fun name => !name.toList.isEmpty) = names :=
    List.filter_eq_self.2 fun name mem => by simpa using filled name mem
  rw [entries, split_ended whole, List.filter_append, List.filter_map, List.map_append,
    List.map_map]
  simpa [Function.comp_def] using kept

/-- Of lines that are printed the filled ones are read back. -/
theorem filledLines_ended_eq_filter {printed : List String}
    (whole : ∀ line ∈ printed, '\n' ∉ line.toList)
    (open_ : ∀ line ∈ printed, line.toList.getLast? ≠ some '\r') :
    filledLines (ended '\n' printed) = printed.filter (· ≠ "") := by
  have ends : (printed.map String.toList).map dropReturn = printed.map String.toList := by
    rw [List.map_map]
    exact List.map_congr_left fun line mem => if_neg (open_ line mem)
  have filled (line : String) : (!line.toList.isEmpty) = decide (line ≠ "") := by
    by_cases empty : line = "" <;> simp [empty]
  rw [filledLines, lines, split_ended whole, List.dropLast_concat, List.getLastD_concat, ends,
    List.filter_append, List.filter_map, List.map_append, List.map_map]
  simp only [Function.comp_def, filled]
  simp

/-- Names that are printed one per line are read back. -/
theorem filledLines_ended {names : List String} (filled : ∀ name ∈ names, name ≠ "")
    (whole : ∀ name ∈ names, '\n' ∉ name.toList)
    (open_ : ∀ name ∈ names, name.toList.getLast? ≠ some '\r') :
    filledLines (ended '\n' names) = names := by
  rw [filledLines_ended_eq_filter whole open_]
  exact List.filter_eq_self.2 fun name mem => decide_eq_true (filled name mem)

end Text

/-! ## Paths -/

namespace Path

theorem pieces_eq_splitOn (bytes : List UInt8) : pieces bytes = bytes.splitOn slash := by
  induction bytes with
  | nil => rfl
  | cons b rest ih =>
    rw [pieces, List.splitOn_cons_eq_if_modifyHead, ih]
    by_cases same : b = slash
    · simp [same]
    · cases found : rest.splitOn slash with
      | nil => exact absurd found (List.splitOn_ne_nil slash rest)
      | cons piece more => simp [same]

/-- Only a separator has the byte of one. -/
theorem slash_mem_encode {characters : List Char} :
    slash ∈ encode characters ↔ '/' ∈ characters := by
  constructor
  · intro mem
    have text : slash ∈ Text.bytes (String.ofList characters) := by
      rwa [Text.bytes, String.toList_ofList]
    simpa using char_mem_of_byte_mem (by decide) (by decide) text
  · exact fun mem => List.mem_flatMap.2 ⟨'/', mem, by decide⟩

theorem encode_intercalate (pieces : List (List Char)) :
    encode (['/'].intercalate pieces) = [slash].intercalate (pieces.map encode) := by
  have single : encode ['/'] = [slash] := by decide
  induction pieces with
  | nil => rfl
  | cons piece rest ih =>
    cases rest with
    | nil => simp
    | cons next more =>
      rw [List.intercalate_cons_cons, List.map_cons, List.map_cons, List.intercalate_cons_cons,
        ← List.map_cons, ← ih, ← single, encode, encode, encode, encode, List.flatMap_append,
        List.flatMap_append]

/-- The pieces of a text's bytes are the bytes of its pieces. -/
theorem pieces_encode (characters : List Char) :
    pieces (encode characters) = (characters.splitOn '/').map encode := by
  have joined : encode characters = [slash].intercalate ((characters.splitOn '/').map encode) := by
    rw [← encode_intercalate, List.intercalate_splitOn]
  have filled : (characters.splitOn '/').map encode ≠ [] := by
    simp
  rw [joined, pieces_eq_splitOn]
  refine List.splitOn_intercalate slash ?_ filled
  intro piece mem
  obtain ⟨part, isIn, rfl⟩ := List.mem_map.1 mem
  rw [slash_mem_encode]
  rw [← split_eq_splitOn] at isIn
  exact not_mem_of_mem_split isIn

/-- The names in a text: what stands between the separators, without `.` and what is empty. -/
def names (text : String) : List String :=
  ((text.toList.splitOn '/').filter fun piece => piece ≠ [] ∧ piece ≠ ['.']).map String.ofList

/-- The component that a name stands for. -/
def Component.ofName (name : String) : Component :=
  if name = ".." then .up else .name (Text.bytes name)

theorem Component.ofName_of_ne {name : String} (other : name ≠ "..") :
    ofName name = .name (Text.bytes name) := if_neg other

@[simp] theorem Component.text_name (name : String) :
    (Component.name (Text.bytes name)).text = name := lossyText_bytes name

@[simp] theorem Component.text_ofName (name : String) : (Component.ofName name).text = name := by
  unfold ofName
  split
  · next up =>
    subst up
    decide
  · exact lossyText_bytes name

theorem component?_encode (piece : List Char) :
    component? (encode piece) =
      if piece = [] ∨ piece = ['.'] then none
      else some (Component.ofName (String.ofList piece)) := by
  have same (text : String) : encode piece = Text.bytes text ↔ String.ofList piece = text := by
    have whole : encode piece = Text.bytes (String.ofList piece) := by
      rw [Text.bytes, String.toList_ofList]
    rw [whole]
    exact bytes_injective.eq_iff
  have empty : encode piece = [] ↔ piece = [] := (same "").trans (by simp)
  have stop : encode piece = [fullStop] ↔ piece = ['.'] :=
    (same ".").trans (by rw [← String.toList_inj, String.toList_ofList]; rfl)
  have up : encode piece = [fullStop, fullStop] ↔ String.ofList piece = ".." := same ".."
  have inner : Text.bytes (String.ofList piece) = encode piece := by
    rw [Text.bytes, String.toList_ofList]
  unfold component? Component.ofName
  rw [inner]
  simp only [empty, stop, up]
  split
  · rfl
  · split <;> rfl

theorem isAbsolute_ofText (text : String) :
    (ofText text).isAbsolute = decide (text.toList.head? = some '/') := by
  rw [isAbsolute, ofText, Text.bytes]
  cases text.toList with
  | nil => rfl
  | cons c rest =>
    have first : ∃ b more, String.utf8EncodeChar c = b :: more := by
      unfold String.utf8EncodeChar
      dsimp only
      repeat' split
      all_goals exact ⟨_, _, rfl⟩
    obtain ⟨b, more, shape⟩ := first
    have leads : (encode (c :: rest)).head? = some b := by
      rw [encode, List.flatMap_cons, shape]
      rfl
    have same : b = slash ↔ c = '/' := by
      constructor
      · rintro rfl
        have mem : slash ∈ String.utf8EncodeChar c := by simp [shape]
        exact Char.toNat_inj.1 (toNat_of_mem_utf8EncodeChar (by decide) mem)
      · rintro rfl
        cases shape
        rfl
    simp only [leads, List.head?_cons, Option.some.injEq, same]

/-- The components of a text are its names, below the root if it begins with a separator. -/
theorem components_ofText (text : String) :
    (ofText text).components =
      (if text.toList.head? = some '/' then [.root] else []) ++
        (names text).map Component.ofName := by
  rw [components, isAbsolute_ofText]
  congr 1
  · simp
  · rw [ofText, Text.bytes, pieces_encode, names, List.filterMap_map, List.map_map]
    induction text.toList.splitOn '/' with
    | nil => rfl
    | cons piece rest ih =>
      rw [List.filterMap_cons, List.filter_cons, ih, Function.comp_apply, component?_encode]
      by_cases skipped : piece = [] ∨ piece = ['.']
      · rw [if_pos skipped, if_neg (by simpa [or_iff_not_imp_left] using skipped)]
      · rw [if_neg skipped, if_pos (by simpa using skipped)]
        rfl

/-- The key of a text is put together from its names. -/
theorem key_ofText (text : String) :
    (ofText text).key =
      "/".intercalate ((if text.toList.head? = some '/' then ["/"] else []) ++ names text) := by
  rw [key, components_ofText, List.map_append, List.map_map]
  congr 2
  · split <;> rfl
  · simp [Function.comp_def]

/-- Whether a name can stand between separators: it holds none, and it is neither empty nor `.`. -/
def IsPart (name : String) : Prop := name ≠ "" ∧ name ≠ "." ∧ '/' ∉ name.toList

theorem isPart_of_mem_names {text name : String} (mem : name ∈ names text) : IsPart name := by
  obtain ⟨piece, kept, rfl⟩ := List.mem_map.1 mem
  obtain ⟨isIn, filled⟩ := List.mem_filter.1 kept
  rw [← split_eq_splitOn] at isIn
  simp only [decide_eq_true_eq] at filled
  refine ⟨?_, ?_, ?_⟩
  · rw [Ne, ← String.toList_inj, String.toList_ofList]
    exact filled.1
  · rw [Ne, ← String.toList_inj, String.toList_ofList]
    exact filled.2
  · rw [String.toList_ofList]
    exact not_mem_of_mem_split isIn

/-- The names behind a separator follow those before it. -/
theorem names_append_separator (before behind : String) :
    names (before ++ "/" ++ behind) = names before ++ names behind := by
  have whole : (before ++ "/" ++ behind).toList = before.toList ++ '/' :: behind.toList := by
    simp [String.toList_append]
  rw [names, whole, List.splitOn_append_cons_self, List.filter_append, List.map_append, names,
    names]

variable {parts : List String}

/-- Names that are joined by separators are the names of that text. -/
theorem names_intercalate (proper : ∀ part ∈ parts, IsPart part) :
    names ("/".intercalate parts) = parts := by
  cases parts with
  | nil => decide
  | cons first rest =>
    have whole : ∀ piece ∈ (first :: rest).map String.toList, '/' ∉ piece := by
      intro piece mem
      obtain ⟨part, isIn, rfl⟩ := List.mem_map.1 mem
      exact (proper part isIn).2.2
    have kept : ∀ piece ∈ (first :: rest).map String.toList,
        decide (piece ≠ [] ∧ piece ≠ ['.']) = true := by
      intro piece mem
      obtain ⟨part, isIn, rfl⟩ := List.mem_map.1 mem
      obtain ⟨filled, noStop, -⟩ := proper part isIn
      rw [decide_eq_true_eq]
      exact ⟨mt String.toList_eq_nil_iff.1 filled, fun same => noStop (String.toList_inj.1 same)⟩
    rw [names, String.toList_intercalate]
    show (((['/'].intercalate _).splitOn '/').filter _).map _ = _
    rw [List.splitOn_intercalate '/' whole (by simp), List.filter_eq_self.2 kept, List.map_map]
    simp

/-- Names that are joined by separators do not begin with one. -/
theorem head?_intercalate (proper : ∀ part ∈ parts, IsPart part) :
    ("/".intercalate parts).toList.head? ≠ some '/' := by
  intro begins
  rw [String.toList_intercalate] at begins
  cases parts with
  | nil => simp at begins
  | cons first rest =>
    obtain ⟨filled, -, whole⟩ := proper first List.mem_cons_self
    obtain ⟨c, more, shape⟩ := List.exists_cons_of_ne_nil (mt String.toList_eq_nil_iff.1 filled)
    have start : c = '/' := by
      cases rest <;> simp_all [List.intercalate_cons_cons]
    exact whole (by simp [shape, start])

/-- Names that are joined by separators are no empty text. -/
theorem intercalate_ne_empty (filled : parts ≠ []) (proper : ∀ part ∈ parts, IsPart part) :
    "/".intercalate parts ≠ "" := by
  intro empty
  have same := names_intercalate proper
  rw [empty] at same
  exact filled same.symm

/-- The characters of joined names are theirs and separators. -/
theorem mem_intercalate {c : Char} (mem : c ∈ ("/".intercalate parts).toList) :
    c = '/' ∨ ∃ part ∈ parts, c ∈ part.toList := by
  induction parts with
  | nil => simp at mem
  | cons first rest ih =>
    cases rest with
    | nil => exact .inr ⟨first, List.mem_cons_self, by simpa using mem⟩
    | cons next more =>
      rw [String.intercalate_cons_cons, String.toList_append, String.toList_append,
        List.mem_append, List.mem_append] at mem
      rcases mem with (first | separator) | later
      · exact .inr ⟨_, List.mem_cons_self, first⟩
      · exact .inl (by simpa using separator)
      · exact (ih later).imp id fun ⟨part, isIn, inner⟩ =>
          ⟨part, List.mem_cons_of_mem _ isIn, inner⟩

theorem slash_not_mem_pieces {bytes piece : List UInt8} (mem : piece ∈ pieces bytes) :
    slash ∉ piece := by
  induction bytes generalizing piece with
  | nil =>
    rw [List.mem_singleton.1 mem]
    exact List.not_mem_nil
  | cons b rest ih =>
    rw [pieces] at mem
    split at mem
    · rcases List.mem_cons.1 mem with rfl | mem
      · exact List.not_mem_nil
      · exact ih mem
    · next other =>
      cases found : pieces rest with
      | nil => exact absurd found (pieces_ne_nil rest)
      | cons first more =>
        rw [found] at mem ih
        rcases List.mem_cons.1 mem with rfl | mem
        · simpa [eq_comm, other] using ih List.mem_cons_self
        · exact ih (List.mem_cons_of_mem _ mem)

/-- A component that leads to an entry stands between separators as it is shown, and it is not
`..`. -/
theorem isPart_text {path : Path} {component : Component} (mem : component ∈ path.components)
    (inner : component.escapes = false) : IsPart component.text ∧ component.text ≠ ".." := by
  cases component with
  | root => contradiction
  | up => contradiction
  | name bytes =>
    obtain ⟨piece, isPiece, found⟩ : ∃ piece ∈ pieces path.bytes,
        component? piece = some (.name bytes) := by
      rcases List.mem_append.1 mem with front | mem
      · split at front <;> simp at front
      · exact List.mem_filterMap.1 mem
    obtain ⟨noStop, notUp, rfl⟩ : ¬ (piece = [] ∨ piece = [fullStop]) ∧
        piece ≠ [fullStop, fullStop] ∧ piece = bytes := by
      unfold component? at found
      split at found
      · contradiction
      · next noStop =>
        split at found
        · cases found
        · next notUp =>
          cases found
          exact ⟨noStop, notUp, rfl⟩
    have other (text : String) (whole : '\uFFFD' ∉ text.toList) (ne : piece ≠ Text.bytes text) :
        lossyText piece ≠ text := by
      rintro rfl
      exact ne (bytes_lossyText whole).symm
    refine ⟨⟨?_, ?_, fun separator => ?_⟩, ?_⟩
    · exact other "" (by decide) fun same => noStop (.inl same)
    · exact other "." (by decide) fun same => noStop (.inr same)
    · have isIn := char_mem_symbols separator (by decide)
      refine slash_not_mem_pieces isPiece ?_
      rw [← bytes_symbols piece]
      exact List.mem_flatMap.2 ⟨_, isIn, by decide⟩
    · exact other ".." (by decide) notUp

/-- A text leads nowhere but to names below a directory exactly if it does not begin with a
separator and `..` is none of its names. -/
theorem not_escapes_ofText_iff {text : String} :
    (∀ component ∈ (ofText text).components, component.escapes = false) ↔
      text.toList.head? ≠ some '/' ∧ ".." ∉ names text := by
  rw [components_ofText, List.forall_mem_append]
  refine and_congr ?_ ?_
  · split <;> simp_all [Component.escapes]
  · rw [List.forall_mem_map]
    constructor
    · intro stays mem
      exact absurd (stays _ mem) (by decide)
    · intro noUp name mem
      have other : name ≠ ".." := fun same => noUp (same ▸ mem)
      simp [Component.ofName, other, Component.escapes]

end Path

end LocaleWatch
