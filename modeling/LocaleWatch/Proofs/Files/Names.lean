import LocaleWatch.Cache.Category
import LocaleWatch.Cache.Folder
import LocaleWatch.Proofs.Files.Endings
import LocaleWatch.Replacement
import Mathlib.Data.List.Basic
import Mathlib.Data.Nat.Digits.Defs

/-!
# Names of files

Every file below the cache directory has a name that a program made: the digest of a key, a
language or a lock with its extension, or a temporary name. Temporary names end with a digit and
the others with a letter, so none is taken for another; and a category and a digest are each one
name, so that an entry lies directly in the directory of its category.

## Main results

* `Replacement.components_temporary`, `Replacement.temporaryName_ne` — a temporary file lies
  beside the file that it is for, under another name.
* `Replacement.temporaryName_injective` — different numbers make different names.
* `Category.isName` — a category is the name of a directory.
* `CacheFolder.components_entry` — where an entry lies.
-/

namespace LocaleWatch

open Text

namespace Text

theorem bytes_append (a b : String) : bytes (a ++ b) = bytes a ++ bytes b := by
  simp [bytes, encode]

/-- Different texts have different bytes. -/
theorem bytes_injective : Function.Injective bytes := by
  intro a b same
  have read := congrArg text? same
  simpa using read

/-- A byte below 0x80 is a character of its own, and no part of another. -/
theorem toNat_of_mem_utf8EncodeChar {b : UInt8} (ascii : b.toNat < 0x80) {c : Char}
    (mem : b ∈ String.utf8EncodeChar c) : c.toNat = b.toNat := by
  have scalar := c.valid
  simp only [UInt32.isValidChar, Nat.isValidChar] at scalar
  have value : c.toNat = c.val.toNat := rfl
  simp only [String.utf8EncodeChar] at mem
  split at mem
  · simp only [List.mem_singleton] at mem
    subst mem
    rw [UInt8.toNat_ofNat']
    omega
  · repeat' split at mem
    all_goals
      simp only [List.mem_cons, List.not_mem_nil, or_false] at mem
      rcases mem with rfl | rfl | rfl | rfl <;> rw [UInt8.toNat_ofNat'] at ascii <;> omega

theorem char_mem_of_byte_mem {c : Char} (ascii : c.toNat < 0x80) {b : UInt8}
    (same : b.toNat = c.toNat) {text : String} (mem : b ∈ bytes text) : c ∈ text.toList := by
  obtain ⟨d, isIn, part⟩ := List.mem_flatMap.1 mem
  have value := toNat_of_mem_utf8EncodeChar (same ▸ ascii) part
  have : d = c := Char.toNat_inj.1 (value.trans same)
  rwa [← this]

/-- A text of characters below 0x80 has one byte for each. -/
theorem bytes_of_ascii {text : String} (ascii : ∀ c ∈ text.toList, c.toNat < 0x80) :
    bytes text = text.toList.map fun c => UInt8.ofNat c.toNat := by
  have each : ∀ c ∈ text.toList, String.utf8EncodeChar c = [UInt8.ofNat c.toNat] := by
    intro c mem
    have small : c.val.toNat ≤ 0x7F := Nat.le_of_lt_succ (ascii c mem)
    simp only [String.utf8EncodeChar, if_pos small]
    rfl
  rw [bytes, encode, List.flatMap_congr each, List.map_eq_flatMap]

theorem digit_of_mem_number {n : Nat} {c : Char} (mem : c ∈ (toString n).toList) :
    0x30 ≤ c.toNat ∧ c.toNat ≤ 0x39 := by
  have text : toString n = String.ofList (Nat.toDigits 10 n) := Nat.repr_eq_ofList_toDigits
  rw [text, String.toList_ofList] at mem
  have digit := Nat.isDigit_of_mem_toDigits (by omega) (by omega) mem
  simpa [Char.isDigit, UInt32.le_iff_toNat_le] using digit

theorem bytes_number (n : Nat) :
    bytes (toString n) = (toString n).toList.map fun c => UInt8.ofNat c.toNat :=
  bytes_of_ascii fun _ mem => Nat.lt_of_le_of_lt (digit_of_mem_number mem).2 (by decide)

/-- A number is written in digits. -/
theorem digit_of_mem_bytes {n : Nat} {b : UInt8} (mem : b ∈ bytes (toString n)) :
    0x30 ≤ b.toNat ∧ b.toNat ≤ 0x39 := by
  rw [bytes_number] at mem
  obtain ⟨c, isIn, rfl⟩ := List.mem_map.1 mem
  have digit := digit_of_mem_number isIn
  rwa [UInt8.toNat_ofNat', Nat.mod_eq_of_lt (by omega)]

/-- A number of 64 bits has at most 20 digits. -/
theorem length_bytes_number (number : UInt64) : (bytes (toString number.toNat)).length ≤ 20 := by
  rw [bytes_number, List.length_map, String.length_toList]
  refine Nat.repr_length _ 20 (by decide) (number.toNat_lt.trans ?_)
  decide

end Text

/-! ## The last byte of a path -/

namespace Path

theorem noMark_of_lt {b : UInt8} (high : 0x2F < b.toNat) : b ≠ slash ∧ b ≠ fullStop := by
  constructor
  · rintro rfl
    have : slash.toNat = 0x2F := rfl
    omega
  · rintro rfl
    have : fullStop.toNat = 0x2E := rfl
    omega

/-- A path that ends with a byte of a name leads to that name. -/
theorem components_of_getLast? {path : Path} {b : UInt8} (ends : path.bytes.getLast? = some b)
    (letter : b ≠ slash ∧ b ≠ fullStop) :
    ∃ above name, path.components = above ++ [.name name] ∧ name.getLast? = some b := by
  obtain ⟨front, last, shape, leads, inside, byte⟩ := exists_lastPiece_of_getLast? ends letter.1
  have found : component? last = some (.name last) := by
    rw [component?, if_neg, if_neg]
    · rintro rfl
      exact letter.2 (Option.some.inj byte).symm
    · rintro (rfl | rfl)
      · contradiction
      · exact letter.2 (Option.some.inj byte).symm
  refine ⟨components ⟨front⟩, last, ?_, byte⟩
  have parts := components_lastPiece leads inside
  rwa [found, ← shape] at parts

/-- A joined path ends with the last byte of the inner one. -/
theorem getLast?_join (outer : Path) {inner : Path} {b : UInt8}
    (ends : inner.bytes.getLast? = some b) : (outer.join inner).bytes.getLast? = some b := by
  have filled : inner.bytes ≠ [] := by
    intro empty
    rw [empty] at ends
    contradiction
  unfold join
  split
  · exact ends
  · split
    · exact (List.getLast?_append_of_ne_nil _ filled).trans ends
    · rw [List.getLast?_append_of_ne_nil _ (List.cons_ne_nil _ _),
        List.getLast?_cons_of_ne_nil filled]
      exact ends

end Path

/-! ## Temporary names -/

namespace Replacement

/-- The extension of a temporary name. -/
def extension (ticket : Nat × UInt64) : String :=
  "tmp." ++ toString ticket.1 ++ "." ++ toString ticket.2

/-- The temporary name for a name. -/
def temporaryName (name : List UInt8) (ticket : Nat × UInt64) : List UInt8 :=
  Path.renamed name (bytes (extension ticket))

theorem bytes_extension (ticket : Nat × UInt64) :
    bytes (extension ticket) =
      bytes ("tmp." ++ toString ticket.1) ++ fullStop :: bytes (toString ticket.2.toNat) := by
  have stop : bytes "." = [fullStop] := by decide
  have number : toString ticket.2 = toString ticket.2.toNat := rfl
  rw [extension, number, bytes_append, bytes_append, stop, List.append_assoc, List.singleton_append]

variable {file : Path} {name : List UInt8} (ticket : Nat × UInt64)

/-- A file without a name has no temporary name but itself. -/
theorem temporary_of_nameless (nameless : file.fileName? = none) :
    temporary file ticket = file := by
  rw [temporary, Path.withExtension, nameless]

private theorem no_mark_in_number (n : Nat) :
    slash ∉ bytes (toString n) ∧ fullStop ∉ bytes (toString n) :=
  ⟨fun mem => (Path.noMark_of_lt (digit_of_mem_bytes mem).1).1 rfl,
    fun mem => (Path.noMark_of_lt (digit_of_mem_bytes mem).1).2 rfl⟩

/-- A temporary name is another name. -/
theorem temporaryName_ne : temporaryName name ticket ≠ name := by
  rw [temporaryName, bytes_extension]
  exact Path.renamed_ne (no_mark_in_number ticket.2.toNat).2

/-- Different numbers of one process make different names. -/
theorem temporaryName_injective (process : Nat) :
    Function.Injective fun number => temporaryName name (process, number) := by
  intro first second same
  have cut := List.append_cancel_left same
  rw [List.cons_inj_right, bytes_extension, bytes_extension] at cut
  have numbers := (List.cons_inj_right _).1 (List.append_cancel_left cut)
  have digits : Nat.toDigits 10 first.toNat = Nat.toDigits 10 second.toNat := by
    rw [← Nat.toList_repr, ← Nat.toList_repr]
    exact congrArg String.toList (bytes_injective numbers)
  refine UInt64.toNat_inj.1 ?_
  rw [← Nat.ofDigitChars_ten_toDigits (n := first.toNat), digits, Nat.ofDigitChars_ten_toDigits]

/-- A temporary file lies beside the file that it is for. -/
theorem components_temporary (named : file.fileName? = some name) :
    (temporary file ticket).components =
      file.components.dropLast ++ [.name (temporaryName name ticket)] := by
  refine Path.components_withExtension named ?_ ?_
  · have start : ('/' : Char) ∉ ("tmp." : String).toList := by decide
    have other : slash ∉ bytes ("tmp." : String) := fun mem =>
      start (char_mem_of_byte_mem (by decide) (by decide) mem)
    have number (n : Nat) : slash ∉ bytes (toString n) := (no_mark_in_number n).1
    have stop : slash ≠ fullStop := by decide
    rw [← extension, bytes_extension, bytes_append]
    simp only [List.mem_append, List.mem_cons, other, number, stop, or_self, not_false_eq_true]
  · have four : (bytes "tmp.").length = 4 := by decide
    rw [← extension, bytes_extension, bytes_append]
    simp only [List.length_append, four]
    omega

theorem fileName?_temporary (named : file.fileName? = some name) :
    (temporary file ticket).fileName? = some (temporaryName name ticket) :=
  Path.fileName?_eq_some.2 (by rw [components_temporary ticket named, List.getLast?_concat])

/-- A temporary path ends with a digit. -/
theorem getLast?_temporary (named : file.fileName? = some name) :
    ∃ b, (temporary file ticket).bytes.getLast? = some b ∧ 0x30 ≤ b.toNat ∧ b.toNat ≤ 0x39 := by
  obtain ⟨front, -, -, -, shape⟩ := Path.withExtension_eq (extension ticket) named
  have filled : bytes (toString ticket.2.toNat) ≠ [] := by
    intro empty
    have none : toString ticket.2.toNat = "" := bytes_injective empty
    exact Nat.repr_ne_empty none
  have whole : (temporary file ticket).bytes =
      (front ++ name.take (Path.stemLength name) ++ fullStop ::
        bytes ("tmp." ++ toString ticket.1) ++ [fullStop]) ++ bytes (toString ticket.2.toNat) := by
    have same : (temporary file ticket).bytes =
        front ++ Path.renamed name (bytes (extension ticket)) := congrArg Path.bytes shape
    rw [same, Path.renamed, bytes_extension]
    simp
  refine ⟨(bytes (toString ticket.2.toNat)).getLast filled, ?_,
    digit_of_mem_bytes (List.getLast_mem filled)⟩
  rw [whole, List.getLast?_append_of_ne_nil _ filled, List.getLast?_eq_some_getLast filled]

end Replacement

/-! ## Entries -/

namespace Path

/-- Whether bytes are one name. -/
def IsName (bytes : List UInt8) : Prop :=
  slash ∉ bytes ∧ component? bytes = some (.name bytes)

/-- A name that is joined to a path is one more component. -/
theorem IsName.components_join {bytes : List UInt8} (isName : IsName bytes) (outer : Path) :
    (outer.join ⟨bytes⟩).components = outer.components ++ [.name bytes] := by
  have relative : (⟨bytes⟩ : Path).isAbsolute = false := by
    cases bytes with
    | nil => rfl
    | cons b rest => simpa [isAbsolute, eq_comm] using List.ne_of_not_mem_cons isName.1
  rw [Path.components_join outer relative, components_of_relative relative,
    pieces_of_not_mem isName.1, List.filterMap_cons_some isName.2, List.filterMap_nil]

end Path

/-- A category is the name of a directory. -/
theorem Category.isName {category : String} (valid : Category.check category = .ok ()) :
    Path.IsName (bytes category) := by
  have flawless := Category.check_eq_ok_iff.1 valid
  have ne (text : String) (flawed : Category.flaw? text ≠ none) : bytes category ≠ bytes text := by
    intro same
    rw [bytes_injective same] at flawless
    exact flawed flawless
  constructor
  · intro mem
    have separator : '/' ∈ category.toList := char_mem_of_byte_mem (by decide) (by decide) mem
    have found : (category.toList.any fun c => c = '/' || c = '\\') = true :=
      List.any_eq_true.2 ⟨'/', separator, by decide⟩
    simp only [Category.flaw?, found, if_true] at flawless
    repeat' split at flawless
    all_goals contradiction
  · have filled : bytes category ≠ [] := ne "" (by decide)
    have noStop : bytes category ≠ [fullStop] := ne "." (by decide)
    have notUp : bytes category ≠ [fullStop, fullStop] := ne ".." (by decide)
    rw [Path.component?, if_neg (by simp [filled, noStop]), if_neg notUp]

namespace Sha256

/-- The digits that a digest is written in. -/
def digits : List Char := "0123456789abcdef".toList

theorem mem_digits_of_mem_hexWord {word : UInt32} {c : Char} (mem : c ∈ hexWord word) :
    c ∈ digits := by
  have each : ∀ n < 16, Nat.digitChar n ∈ digits := by decide
  simp only [hexWord, List.mem_cons, List.not_mem_nil, or_false] at mem
  rcases mem with rfl | rfl | rfl | rfl | rfl | rfl | rfl | rfl <;>
    exact each _ (Nat.mod_lt _ (by omega))

/-- A digest is written in lowercase hexadecimal digits. -/
theorem mem_digits_of_mem_hexDigest {key : String} {c : Char}
    (mem : c ∈ (hexDigest key).toList) : c ∈ digits := by
  rw [hexDigest, String.toList_ofList] at mem
  obtain ⟨word, -, part⟩ := List.mem_flatMap.1 mem
  exact mem_digits_of_mem_hexWord part

end Sha256

namespace CacheFolder

/-- The name of an entry's file. -/
def entryName (key : String) : List UInt8 := bytes (Sha256.hexDigest key ++ ".json")

theorem isName_entryName (key : String) : Path.IsName (entryName key) := by
  have characters : ∀ c ∈ (Sha256.hexDigest key ++ ".json").toList,
      c ∈ Sha256.digits ++ ".json".toList := by
    intro c mem
    rw [String.toList_append, List.mem_append] at mem
    rcases mem with digest | ending
    · exact List.mem_append_left _ (Sha256.mem_digits_of_mem_hexDigest digest)
    · exact List.mem_append_right _ ending
  have long : 64 < (entryName key).length := by
    have ascii : (Sha256.digits ++ ".json".toList).all (·.toNat < 0x80) = true := by decide
    have each : ∀ c ∈ (Sha256.hexDigest key ++ ".json").toList, c.toNat < 0x80 := fun c mem =>
      of_decide_eq_true (List.all_eq_true.1 ascii c (characters c mem))
    rw [entryName, bytes_of_ascii each, List.length_map, String.toList_append, List.length_append,
      Sha256.hexDigest_length]
    decide
  constructor
  · intro mem
    have separator : '/' ∈ (Sha256.hexDigest key ++ ".json").toList :=
      char_mem_of_byte_mem (by decide) (by decide) mem
    exact absurd (characters _ separator) (by decide)
  · rw [Path.component?, if_neg, if_neg]
    · intro up
      simp [up] at long
    · rintro (void | void) <;> simp [void] at long

/-- Keys with different digests have different names. -/
theorem entryName_inj {key other : String} :
    entryName key = entryName other ↔ Sha256.hexDigest key = Sha256.hexDigest other := by
  constructor
  · intro same
    rw [entryName, entryName, bytes_append, bytes_append] at same
    exact bytes_injective (List.append_cancel_right same)
  · intro same
    rw [entryName, same, entryName]

theorem components_category {category : String} (folder : CacheFolder)
    (valid : Category.check category = .ok ()) :
    (folder.category category).components = folder.root.components ++ [.name (bytes category)] :=
  (Category.isName valid).components_join folder.root

/-- An entry lies directly in the directory of its category. -/
theorem components_entry {category : String} (folder : CacheFolder)
    (valid : Category.check category = .ok ()) (key : String) :
    (folder.entry category key).components =
      folder.root.components ++ [.name (bytes category), .name (entryName key)] := by
  have inner := (isName_entryName key).components_join (folder.category category)
  refine inner.trans ?_
  rw [folder.components_category valid, List.append_assoc]
  rfl

/-- A file in a directory of a cache directory has a name. -/
theorem fileName?_inside {folder : CacheFolder} {file : Path} {directory name : List UInt8}
    (place : file.components = folder.root.components ++ [.name directory, .name name]) :
    file.fileName? = some name := by
  rw [Path.fileName?_eq_some, place, List.getLast?_append_of_ne_nil _ (List.cons_ne_nil _ _)]
  rfl

theorem fileName?_entry {category : String} (folder : CacheFolder)
    (valid : Category.check category = .ok ()) (key : String) :
    (folder.entry category key).fileName? = some (entryName key) :=
  fileName?_inside (folder.components_entry valid key)

theorem fileName?_entry_ne_none {category : String} (folder : CacheFolder)
    (valid : Category.check category = .ok ()) (key : String) :
    (folder.entry category key).fileName? ≠ none := by
  rw [folder.fileName?_entry valid key]
  exact nofun

theorem components_entry_ne_nil {category : String} (folder : CacheFolder)
    (valid : Category.check category = .ok ()) (key : String) :
    (folder.entry category key).components ≠ [] := by
  rw [folder.components_entry valid key]
  exact List.append_ne_nil_of_right_ne_nil _ (List.cons_ne_nil _ _)

/-- The directory of an entry is that of its category. -/
theorem components_of_parent_entry {category key : String} {directory : Path}
    (folder : CacheFolder) (valid : Category.check category = .ok ())
    (inner : (folder.entry category key).parent? = some directory) :
    directory.components = (folder.category category).components := by
  have ends := Path.fileName?_eq_some.1 (folder.fileName?_entry valid key)
  obtain ⟨other, isParent, shape⟩ := Path.components_parent ends nofun
  obtain rfl : other = directory := Option.some.inj (isParent.symm.trans inner)
  have same : (folder.category category).components ++ [.name (entryName key)] =
      other.components ++ [.name (entryName key)] := by
    rw [← shape, folder.components_category valid, folder.components_entry valid key,
      List.append_assoc]
    rfl
  exact (List.append_cancel_right same).symm

variable (folder : CacheFolder)

/-- The path of an entry ends with a letter, whatever its category. -/
theorem getLast?_entry (category key : String) :
    (folder.entry category key).bytes.getLast? = some 0x6E := by
  refine Path.getLast?_join _ ?_
  have letter : (bytes ".json").getLast? = some 0x6E := by decide
  rw [Path.ofText, bytes_append, List.getLast?_append_of_ne_nil _ (by decide), letter]

/-- The path of a report ends with a letter, whatever its language. -/
theorem getLast?_report (language : String) :
    (folder.report language).bytes.getLast? = some 0x6E := by
  refine Path.getLast?_join _ ?_
  have letter : (bytes ".json").getLast? = some 0x6E := by decide
  rw [Path.ofText, bytes_append, List.getLast?_append_of_ne_nil _ (by decide), letter]

/-- A lock lies in a directory below the cache directory. -/
theorem components_lock {name : String} (isName : Path.IsName (bytes (name ++ ".lock"))) :
    (folder.lock name).components =
      folder.root.components ++ [.name (bytes "locks"), .name (bytes (name ++ ".lock"))] := by
  have locks : Path.IsName (bytes "locks") := ⟨by decide, rfl⟩
  refine (isName.components_join folder.locks).trans ?_
  rw [CacheFolder.locks, Path.ofText, locks.components_join, List.append_assoc]
  rfl

/-- The path of a lock ends with a letter, whatever its name. -/
theorem getLast?_lock (name : String) : (folder.lock name).bytes.getLast? = some 0x6B := by
  refine Path.getLast?_join _ ?_
  have letter : (bytes ".lock").getLast? = some 0x6B := by decide
  rw [Path.ofText, bytes_append, List.getLast?_append_of_ne_nil _ (by decide), letter]

end CacheFolder

end LocaleWatch
