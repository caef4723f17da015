import LocaleWatch.Text.Sorted
import LocaleWatch.Text.Utf8
import Mathlib.Data.List.Lex
import Mathlib.Data.List.Sort

/-!
# The order of texts is the order of their bytes

Texts are compared character by character, and characters by their numbers. Written as bytes they
compare the same: a character that needs more bytes has a first byte that is larger, and among
characters that need equally many the bytes are the digits of the number, the highest first. So a
listing that is sorted as text is sorted as bytes, too.

## Main results

* `Text.bytes_lt_bytes_iff` — texts have the order of their bytes.
* `Text.ascending_pairwise_bytes` — what is sorted, and holds nothing twice, ascends by its bytes.
-/

namespace LocaleWatch

namespace Text

/-! ## Characters -/

/-- Bytes are compared like numbers, the first ones first. -/
private theorem cons_lt_cons_of_le {m n : Nat} {x y : List UInt8} (ordered : m ≤ n)
    (small : n < 256) (later : m = n → x < y) : UInt8.ofNat m :: x < UInt8.ofNat n :: y := by
  rw [List.cons_lt_cons_iff, UInt8.ofNat_lt_iff_lt (Nat.lt_of_le_of_lt ordered small) small]
  obtain less | same := Nat.lt_or_eq_of_le ordered
  · exact .inl less
  · exact .inr ⟨congrArg UInt8.ofNat same, later same⟩

/-- The smaller character has the smaller bytes, whatever follows. -/
theorem utf8EncodeChar_append_lt {c d : Char} (less : c < d) (x y : List UInt8) :
    String.utf8EncodeChar c ++ x < String.utf8EncodeChar d ++ y := by
  have lower : c.val.toNat < d.val.toNat := less
  have bound : d.val.toNat < 0x110000 := by
    rcases d.valid with low | high <;> omega
  unfold String.utf8EncodeChar
  generalize c.val.toNat = m at lower
  generalize d.val.toNat = n at lower bound
  dsimp only
  -- One case for each two numbers of bytes. Digits are compared in turn until they have to differ.
  split_ifs
  all_goals repeat first
    | omega
    | refine cons_lt_cons_of_le (by omega) (by omega) fun _ => ?_

/-! ## Texts -/

theorem encode_lt_encode {first second : List Char} (less : first < second) :
    encode first < encode second := by
  induction first generalizing second with
  | nil =>
    cases second with
    | nil => exact absurd less (List.lt_irrefl _)
    | cons d rest =>
      obtain ⟨b, more, shape⟩ := List.exists_cons_of_ne_nil (String.utf8EncodeChar_ne_nil (c := d))
      rw [encode, encode, List.flatMap_cons, shape]
      exact List.nil_lt_cons _ _
  | cons c rest ih =>
    cases second with
    | nil => exact absurd less (List.not_lt_nil _)
    | cons d rest' =>
      obtain before | ⟨rfl, later⟩ := List.cons_lt_cons_iff.1 less
      · exact utf8EncodeChar_append_lt before _ _
      · exact List.append_left_lt (ih later)

private theorem string_lt_of_le {a b : String} (ordered : a ≤ b) (other : a ≠ b) : a < b := by
  by_contra back
  exact other (String.le_antisymm ordered (String.not_lt.1 back))

/-- Texts have the order of their bytes. -/
theorem bytes_lt_bytes_iff {a b : String} : bytes a < bytes b ↔ a < b := by
  have forth {a b : String} (less : a < b) : bytes a < bytes b :=
    encode_lt_encode (String.lt_iff.1 less)
  refine ⟨fun less => ?_, forth⟩
  by_contra other
  have ordered : b ≤ a := String.not_lt.1 other
  by_cases same : b = a
  · exact List.lt_irrefl _ (same ▸ less)
  · exact List.lt_asymm less (forth (string_lt_of_le ordered same))

/-! ## Sorting -/

theorem ascending_nil : ascending [] = [] := List.mergeSort_nil

theorem ascending_pairwise (texts : List String) : (ascending texts).Pairwise (· ≤ ·) := by
  have sorted : (ascending texts).Pairwise fun a b => decide (a ≤ b) = true :=
    List.pairwise_mergeSort (fun a b c ab bc => by
      simp only [decide_eq_true_eq] at ab bc ⊢
      exact String.le_trans ab bc) (fun a b => by
      simpa using String.le_total a b) texts
  exact sorted.imp of_decide_eq_true

theorem ascending_perm_self (texts : List String) : (ascending texts).Perm texts :=
  List.mergeSort_perm texts _

/-- What is printed in another order is sorted to the same. -/
theorem ascending_perm {first second : List String} (same : first.Perm second) :
    ascending first = ascending second := by
  refine List.Perm.eq_of_pairwise (fun a b _ _ ab ba => String.le_antisymm ab ba)
    (ascending_pairwise first) (ascending_pairwise second) ?_
  exact (ascending_perm_self first).trans (same.trans (ascending_perm_self second).symm)

/-- What is sorted, and holds nothing twice, ascends by its bytes. -/
theorem ascending_pairwise_bytes {texts : List String} (once : texts.Nodup) :
    (ascending texts).Pairwise fun a b => bytes a < bytes b := by
  have apart : (ascending texts).Nodup := (ascending_perm_self texts).nodup_iff.2 once
  refine (ascending_pairwise texts).imp₂ (fun a b ordered other => ?_) apart
  exact bytes_lt_bytes_iff.2 (string_lt_of_le ordered other)

/-- What ascends by its bytes is told by what it holds. -/
theorem eq_of_pairwise_bytes {first second : List String}
    (sorted : first.Pairwise fun a b => bytes a < bytes b)
    (sorted' : second.Pairwise fun a b => bytes a < bytes b)
    (same : ∀ text, text ∈ first ↔ text ∈ second) : first = second := by
  have : Std.Irrefl fun a b : String => bytes a < bytes b := ⟨fun _ => List.lt_irrefl _⟩
  have : Std.Antisymm fun a b : String => bytes a < bytes b :=
    ⟨fun _ _ ab ba => absurd ba (List.lt_asymm ab)⟩
  exact sorted.eq_of_mem_iff sorted' same

end Text

end LocaleWatch
