/-!
# Bytes read as UTF-8 text

Paths, file contents and program output are bytes; most of them are UTF-8, and
none of them has to be. This module reads a byte list as a list of *symbols*:
characters, and maximal runs of bytes that start no character. Every other
reading is a function of the symbols:

* `text?` accepts the bytes only if every symbol is a character;
* `lossyText` shows each malformed run as one U+FFFD.

## Main results

* `symbols_append` — a written character is read back, whatever follows it.
* `symbols_encode`, `text?_bytes` — reading undoes writing.
* `lossyText_bytes` — a lossy reading of written text loses nothing.
-/

namespace LocaleWatch.Text

/-- A piece of text as bytes: the UTF-8 form of its characters, in order. -/
def encode (characters : List Char) : List UInt8 :=
  characters.flatMap String.utf8EncodeChar

/-- The UTF-8 form of a string. -/
def bytes (text : String) : List UInt8 :=
  encode text.toList

/-- What a reader of UTF-8 finds: a character, or a maximal run of bytes that
begins like a character and breaks off. -/
inductive Symbol where
  | char (c : Char)
  | malformed (run : List UInt8)
  deriving DecidableEq, Repr

/-- Whether `b` is a byte that only continues a character. -/
def isContinuation (b : UInt8) : Bool :=
  0x80 ≤ b && b ≤ 0xBF

/-- Whether `b` may be the second byte after the first byte `a`. The four first
bytes with a narrower range exclude overlong forms, surrogates and code points
above U+10FFFF. -/
def isSecond (a b : UInt8) : Bool :=
  if a = 0xE0 then 0xA0 ≤ b && b ≤ 0xBF
  else if a = 0xED then 0x80 ≤ b && b ≤ 0x9F
  else if a = 0xF0 then 0x90 ≤ b && b ≤ 0xBF
  else if a = 0xF4 then 0x80 ≤ b && b ≤ 0x8F
  else isContinuation b

/-- How many bytes a character with first byte `a` has; `0` if none starts so. -/
def width (a : UInt8) : Nat :=
  if a < 0x80 then 1
  else if a < 0xC2 then 0
  else if a < 0xE0 then 2
  else if a < 0xF0 then 3
  else if a < 0xF5 then 4
  else 0

/-- The six payload bits of a continuation byte. -/
def payload (b : UInt8) : Nat :=
  b.toNat - 0x80

/-- Read bytes as UTF-8. A byte that cannot continue a character ends the
malformed run before it and is read afresh. -/
def symbols : List UInt8 → List Symbol
  | [] => []
  | a :: rest =>
    match width a with
    | 1 => .char (Char.ofNat a.toNat) :: symbols rest
    | 2 =>
      match rest with
      | [] => [.malformed [a]]
      | b :: rest₁ =>
        if isSecond a b then
          .char (Char.ofNat ((a.toNat - 0xC0) * 0x40 + payload b)) :: symbols rest₁
        else .malformed [a] :: symbols (b :: rest₁)
    | 3 =>
      match rest with
      | [] => [.malformed [a]]
      | b :: rest₁ =>
        if isSecond a b then
          match rest₁ with
          | [] => [.malformed [a, b]]
          | c :: rest₂ =>
            if isContinuation c then
              .char (Char.ofNat
                ((a.toNat - 0xE0) * 0x1000 + payload b * 0x40 + payload c)) :: symbols rest₂
            else .malformed [a, b] :: symbols (c :: rest₂)
        else .malformed [a] :: symbols (b :: rest₁)
    | 4 =>
      match rest with
      | [] => [.malformed [a]]
      | b :: rest₁ =>
        if isSecond a b then
          match rest₁ with
          | [] => [.malformed [a, b]]
          | c :: rest₂ =>
            if isContinuation c then
              match rest₂ with
              | [] => [.malformed [a, b, c]]
              | d :: rest₃ =>
                if isContinuation d then
                  .char (Char.ofNat ((a.toNat - 0xF0) * 0x40000 + payload b * 0x1000 +
                    payload c * 0x40 + payload d)) :: symbols rest₃
                else .malformed [a, b, c] :: symbols (d :: rest₃)
            else .malformed [a, b] :: symbols (c :: rest₂)
        else .malformed [a] :: symbols (b :: rest₁)
    | _ => .malformed [a] :: symbols rest

/-- The character of a symbol, if it is one. -/
def Symbol.char? : Symbol → Option Char
  | .char c => some c
  | .malformed _ => none

/-- The character that stands for a symbol in text that has to show something:
U+FFFD for a malformed run. -/
def Symbol.shown : Symbol → Char
  | .char c => c
  | .malformed _ => '\uFFFD'

/-- The text that the bytes are the UTF-8 form of, if there is one. -/
def text? (input : List UInt8) : Option String :=
  ((symbols input).mapM Symbol.char?).map String.ofList

/-- The bytes as text in which every malformed run is one U+FFFD. -/
def lossyText (input : List UInt8) : String :=
  String.ofList ((symbols input).map Symbol.shown)

/-! ## Reading undoes writing -/

private theorem width_ofNat {n : Nat} (h : n < 0x100) :
    width (UInt8.ofNat n) =
      if n < 0x80 then 1 else if n < 0xC2 then 0 else if n < 0xE0 then 2
      else if n < 0xF0 then 3 else if n < 0xF5 then 4 else 0 := by
  simp only [width, UInt8.lt_iff_toNat_lt, UInt8.toNat_ofNat', UInt8.reduceToNat,
    Nat.mod_eq_of_lt h, Nat.reducePow]

private theorem toNat_ofNat_continuation {n : Nat} (h : n < 0x40) :
    (UInt8.ofNat (n + 0x80)).toNat = n + 0x80 := by
  rw [UInt8.toNat_ofNat', Nat.mod_eq_of_lt (by omega)]

private theorem isContinuation_ofNat {n : Nat} (h : n < 0x40) :
    isContinuation (UInt8.ofNat (n + 0x80)) = true := by
  simp only [isContinuation, UInt8.le_iff_toNat_le, toNat_ofNat_continuation h,
    UInt8.reduceToNat, Bool.and_eq_true, decide_eq_true_eq]
  omega

private theorem payload_ofNat {n : Nat} (h : n < 0x40) :
    payload (UInt8.ofNat (n + 0x80)) = n := by
  have hn := toNat_ofNat_continuation h
  unfold payload
  omega

private theorem isSecond_ofNat {a n : Nat} (ha : a < 0x100) (h : n < 0x40)
    (hE0 : a = 0xE0 → 0x20 ≤ n) (hED : a = 0xED → n < 0x20)
    (hF0 : a = 0xF0 → 0x10 ≤ n) (hF4 : a = 0xF4 → n < 0x10) :
    isSecond (UInt8.ofNat a) (UInt8.ofNat (n + 0x80)) = true := by
  have same (k : Nat) (hk : k < 0x100) : UInt8.ofNat a = UInt8.ofNat k ↔ a = k := by
    rw [← UInt8.toNat_inj, UInt8.toNat_ofNat', UInt8.toNat_ofNat',
      Nat.mod_eq_of_lt ha, Nat.mod_eq_of_lt hk]
  have hn : (n + 0x80) % 0x100 = n + 0x80 := Nat.mod_eq_of_lt (by omega)
  have e0 := same 0xE0 (by omega)
  have ed := same 0xED (by omega)
  have f0 := same 0xF0 (by omega)
  have f4 := same 0xF4 (by omega)
  simp only [UInt8.reduceOfNat] at e0 ed f0 f4
  simp only [isSecond, isContinuation, e0, ed, f0, f4, UInt8.le_iff_toNat_le,
    UInt8.toNat_ofNat', UInt8.reduceToNat, Nat.reducePow, hn]
  repeat' split
  all_goals simp only [Bool.and_eq_true, decide_eq_true_eq]; omega

private theorem symbols_one {a : UInt8} (rest : List UInt8) (ha : width a = 1) :
    symbols (a :: rest) = .char (Char.ofNat a.toNat) :: symbols rest := by
  rw [symbols.eq_def]; simp only [ha]

private theorem symbols_two {a b : UInt8} (rest : List UInt8) (ha : width a = 2)
    (hb : isSecond a b = true) :
    symbols (a :: b :: rest) =
      .char (Char.ofNat ((a.toNat - 0xC0) * 0x40 + payload b)) :: symbols rest := by
  rw [symbols.eq_def]; simp only [ha, hb, if_true]

private theorem symbols_three {a b c : UInt8} (rest : List UInt8) (ha : width a = 3)
    (hb : isSecond a b = true) (hc : isContinuation c = true) :
    symbols (a :: b :: c :: rest) =
      .char (Char.ofNat ((a.toNat - 0xE0) * 0x1000 + payload b * 0x40 + payload c)) ::
        symbols rest := by
  rw [symbols.eq_def]; simp only [ha, hb, hc, if_true]

private theorem symbols_four {a b c d : UInt8} (rest : List UInt8) (ha : width a = 4)
    (hb : isSecond a b = true) (hc : isContinuation c = true) (hd : isContinuation d = true) :
    symbols (a :: b :: c :: d :: rest) =
      .char (Char.ofNat ((a.toNat - 0xF0) * 0x40000 + payload b * 0x1000 +
        payload c * 0x40 + payload d)) :: symbols rest := by
  rw [symbols.eq_def]; simp only [ha, hb, hc, hd, if_true]

/-- A written character is read back, whatever follows it. -/
theorem symbols_append (c : Char) (rest : List UInt8) :
    symbols (String.utf8EncodeChar c ++ rest) = .char c :: symbols rest := by
  have restore {n : Nat} (h : n = c.val.toNat) : Char.ofNat n = c := by
    subst h; exact Char.ofNat_toNat c
  have scalar := c.valid
  simp only [UInt32.isValidChar, Nat.isValidChar] at scalar
  simp only [String.utf8EncodeChar]
  split
  · have ha : c.val.toNat < 0x100 := by omega
    rw [List.cons_append, List.nil_append, symbols_one, UInt8.toNat_ofNat',
      Nat.mod_eq_of_lt ha, restore rfl]
    rw [width_ofNat ha, if_pos (by omega)]
  · split
    · have ha : c.val.toNat / 64 % 0x20 + 0xC0 < 0x100 := by omega
      simp only [List.cons_append, List.nil_append]
      rw [symbols_two, payload_ofNat, UInt8.toNat_ofNat', Nat.mod_eq_of_lt ha, restore]
      · omega
      · omega
      · rw [width_ofNat ha, if_neg (by omega), if_neg (by omega), if_pos (by omega)]
      · exact isSecond_ofNat ha (by omega) (by omega) (by omega) (by omega) (by omega)
    · split
      · have ha : c.val.toNat / 4096 % 0x10 + 0xE0 < 0x100 := by omega
        simp only [List.cons_append, List.nil_append]
        rw [symbols_three, payload_ofNat, payload_ofNat, UInt8.toNat_ofNat',
          Nat.mod_eq_of_lt ha, restore]
        · omega
        · omega
        · omega
        · rw [width_ofNat ha, if_neg (by omega), if_neg (by omega), if_neg (by omega),
            if_pos (by omega)]
        · exact isSecond_ofNat ha (by omega) (by omega) (by omega) (by omega) (by omega)
        · exact isContinuation_ofNat (by omega)
      · have ha : c.val.toNat / 262144 % 0x8 + 0xF0 < 0x100 := by omega
        simp only [List.cons_append, List.nil_append]
        rw [symbols_four, payload_ofNat, payload_ofNat, payload_ofNat, UInt8.toNat_ofNat',
          Nat.mod_eq_of_lt ha, restore]
        · omega
        · omega
        · omega
        · omega
        · rw [width_ofNat ha, if_neg (by omega), if_neg (by omega), if_neg (by omega),
            if_neg (by omega), if_pos (by omega)]
        · exact isSecond_ofNat ha (by omega) (by omega) (by omega) (by omega) (by omega)
        · exact isContinuation_ofNat (by omega)
        · exact isContinuation_ofNat (by omega)

/-- Reading undoes writing. -/
theorem symbols_encode (characters : List Char) :
    symbols (encode characters) = characters.map Symbol.char := by
  induction characters with
  | nil => rfl
  | cons c rest ih =>
    rw [encode, List.flatMap_cons, symbols_append, ← encode, ih, List.map_cons]

/-- Written text is text. -/
@[simp] theorem text?_bytes (text : String) : text? (bytes text) = some text := by
  have h (l : List Char) : (l.map Symbol.char).mapM Symbol.char? = some l := by
    induction l with
    | nil => rfl
    | cons c rest ih => simp [List.mapM_cons, Symbol.char?, ih]
  simp [text?, bytes, symbols_encode, h]

/-- A lossy reading of written text loses nothing. -/
@[simp] theorem lossyText_bytes (text : String) : lossyText (bytes text) = text := by
  have h : Symbol.shown ∘ Symbol.char = id := rfl
  simp [lossyText, bytes, symbols_encode, List.map_map, h]

end LocaleWatch.Text
