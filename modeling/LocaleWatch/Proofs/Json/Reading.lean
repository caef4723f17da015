import LocaleWatch.Json.Printer
import LocaleWatch.Json.Reader
import Mathlib.Data.List.Chain

/-!
# Reading written documents

What either layout writes, the reader finds again: the same tree, with every number a
natural and every text Unicode. The lexer is followed piece by piece, whatever comes after
the piece; only a number needs that the next character does not continue it. So all that is
asked of a layout is that it holds the tokens of the value and that no number stands right
after another.

## Main results

* `JsonToken.lex_written` — a written token is found again.
* `JsonPiece.lex_pieces` — the tokens of a layout are found again.
* `JsonReader.read_tokens` — the tokens of a value are read as the value.
* `JsonValue.parse_compact`, `JsonValue.parse_indented` — a document in either layout is read as
  itself.
-/

namespace LocaleWatch

open Text

namespace JsonValue

mutual

/-- What a reader finds of a document. -/
def reading : JsonDocument → JsonReading
  | .null => .null
  | .bool b => .bool b
  | .number n => .number (some n)
  | .text t => .text (some t)
  | .list items => .list (readings items)
  | .object members => .object (memberReadings members)

/-- What a reader finds of the items of a list. -/
def readings : List JsonDocument → List JsonReading
  | [] => []
  | item :: more => reading item :: readings more

/-- What a reader finds of the members of an object. -/
def memberReadings : List (String × JsonDocument) → List (Option String × JsonReading)
  | [] => []
  | (key, value) :: more => (some key, reading value) :: memberReadings more

end

theorem readings_eq_map (items : List JsonDocument) : readings items = items.map reading := by
  induction items with
  | nil => simp [readings]
  | cons item more ih => simp [readings, ih]

theorem memberReadings_eq_map (members : List (String × JsonDocument)) :
    memberReadings members = members.map fun (key, value) => (some key, reading value) := by
  induction members with
  | nil => simp [memberReadings]
  | cons member more ih => simp [memberReadings, ih]

end JsonValue

/-- What a reader finds of a token. -/
def JsonToken.found : JsonToken Nat String → ReadToken
  | .beginList => .beginList
  | .endList => .endList
  | .beginObject => .beginObject
  | .endObject => .endObject
  | .comma => .comma
  | .colon => .colon
  | .null => .null
  | .bool b => .bool b
  | .number n => .number (some n)
  | .text t => .text (some t)

/-- The tokens of characters that are read on from `mode`. -/
def lexCharacters? (mode : LexerMode) (characters : List Char) : Option (List ReadToken) :=
  lexFrom? mode (characters.map Symbol.char)

/-- No number goes on with the first of these characters. -/
def EndsNumber (characters : List Char) : Prop :=
  ∀ c ∈ characters.head?, c.isDigit = false ∧ c ≠ '.' ∧ c ≠ 'e' ∧ c ≠ 'E'

/-! ## Texts -/

theorem lexCharacters?_cons {mode : LexerMode} {c : Char} (next : LexerMode)
    (tokens : List ReadToken) (step : mode.step? (.char c) = some (next, tokens))
    (rest : List Char) :
    lexCharacters? mode (c :: rest) = (lexCharacters? next rest).map (tokens ++ ·) := by
  simp [lexCharacters?, lexFrom?, step]

/-- A character that completes no token only changes the mode. -/
theorem lexCharacters?_quiet {mode : LexerMode} {c : Char} (next : LexerMode)
    (step : mode.step? (.char c) = some (next, [])) (rest : List Char) :
    lexCharacters? mode (c :: rest) = lexCharacters? next rest := by
  rw [lexCharacters?_cons next [] step]
  simp

theorem hexDigitValue?_digitChar {n : Nat} (h : n < 16) :
    hexDigitValue? (Nat.digitChar n) = some n := by
  have all : ∀ n < 16, hexDigitValue? (Nat.digitChar n) = some n := by decide
  exact all n h

/-- A letter after a backslash stands for the character that it was written for. -/
theorem escapedLetter?_letter? {c letter : Char} (h : JsonToken.letter? c = some letter) :
    escapedLetter? letter = some c ∧ letter ≠ 'u' := by
  unfold JsonToken.letter? at h
  split at h <;> first | contradiction | (cases h; decide)

theorem toNat_of_letter?_eq_none {c : Char} (h : JsonToken.letter? c = none) :
    c ≠ '"' ∧ c ≠ '\\' := by
  constructor <;> rintro rfl <;> simp [JsonToken.letter?] at h

/-- An escape by code stands for the character that it was written for. -/
theorem ofCode_toNat {c : Char} (low : c.toNat < 0x20) :
    TextUnit.ofCode (c.toNat / 16 * 16 + c.toNat % 16) = .char c := by
  have same : c.toNat / 16 * 16 + c.toNat % 16 = c.toNat := by omega
  rw [same, TextUnit.ofCode, if_neg (by omega), Char.ofNat_toNat]

/-- The written form of a character of a text is read as the character. -/
theorem lexCharacters?_escape (c : Char) (units : List TextUnit) (rest : List Char) :
    lexCharacters? (.text units) (JsonToken.escape c ++ rest) =
      lexCharacters? (.text (.char c :: units)) rest := by
  unfold JsonToken.escape
  split
  · next letter h =>
    obtain ⟨back, notCode⟩ := escapedLetter?_letter? h
    rw [List.cons_append, List.cons_append, List.nil_append,
      lexCharacters?_quiet (.escape units) (by simp [LexerMode.step?]),
      lexCharacters?_quiet (.text (.char c :: units))
        (by simp [LexerMode.step?, notCode, back])]
  · next h =>
    obtain ⟨notQuote, notBackslash⟩ := toNat_of_letter?_eq_none h
    split
    · next low =>
      have high : hexDigitValue? (Nat.digitChar (c.toNat / 16)) = some (c.toNat / 16) :=
        hexDigitValue?_digitChar (by omega)
      have last : hexDigitValue? (Nat.digitChar (c.toNat % 16)) = some (c.toNat % 16) :=
        hexDigitValue?_digitChar (by omega)
      have zero : hexDigitValue? '0' = some 0 := by decide
      simp only [List.cons_append, List.nil_append]
      rw [lexCharacters?_quiet (.escape units) (by simp [LexerMode.step?]),
        lexCharacters?_quiet (.code units 3 0) (by simp [LexerMode.step?]),
        lexCharacters?_quiet (.code units 2 0) (by simp [LexerMode.step?, zero]),
        lexCharacters?_quiet (.code units 1 0) (by simp [LexerMode.step?, zero]),
        lexCharacters?_quiet (.code units 0 (c.toNat / 16))
          (by simp [LexerMode.step?, high]),
        lexCharacters?_quiet (.text (.char c :: units))
          (by simp [LexerMode.step?, last, ofCode_toNat low])]
    · next notLow =>
      rw [List.singleton_append,
        lexCharacters?_quiet (.text (.char c :: units))
          (by simp [LexerMode.step?, notQuote, notBackslash, notLow])]

theorem lexCharacters?_escapes (characters : List Char) (units : List TextUnit)
    (rest : List Char) :
    lexCharacters? (.text units) (characters.flatMap JsonToken.escape ++ rest) =
      lexCharacters? (.text ((characters.map TextUnit.char).reverse ++ units)) rest := by
  induction characters generalizing units with
  | nil => rfl
  | cons c more ih =>
    rw [List.flatMap_cons, List.append_assoc, lexCharacters?_escape, ih]
    simp

/-- The quote after a text completes it. -/
theorem lexCharacters?_closeQuote (characters : List Char) (rest : List Char) :
    lexCharacters? (.text ((characters.map TextUnit.char).reverse ++ [])) ('"' :: rest) =
      (lexCharacters? .gap rest).map (.text (some (String.ofList characters)) :: ·) := by
  rw [lexCharacters?_cons .gap [.text (some (String.ofList characters))]]
  · rfl
  · simp [LexerMode.step?, joinUnits?_char]

/-! ## Numbers -/

theorem NumberPhase.next?_eq_none {phase : NumberPhase} (ends : phase = .zero ∨ phase = .integer)
    {c : Char} (h : c.isDigit = false ∧ c ≠ '.' ∧ c ≠ 'e' ∧ c ≠ 'E') :
    phase.next? c = none := by
  obtain ⟨digit, point, lower, upper⟩ := h
  rcases ends with rfl | rfl <;> simp [NumberPhase.next?, digit, point, lower, upper]

/-- A number ends before a character that does not continue it. -/
theorem lexCharacters?_number_end {phase : NumberPhase}
    (ends : phase = .zero ∨ phase = .integer) (n : Nat) {rest : List Char}
    (endsNumber : EndsNumber rest) :
    lexCharacters? (.number phase (some n)) rest =
      (lexCharacters? .gap rest).map (.number (some n) :: ·) := by
  have mayEnd : phase.mayEnd = true := by rcases ends with rfl | rfl <;> rfl
  cases rest with
  | nil => simp [lexCharacters?, lexFrom?, LexerMode.finish?, mayEnd]
  | cons c rest =>
    have stop : phase.next? c = none := NumberPhase.next?_eq_none ends (endsNumber c rfl)
    cases start : LexerMode.start? c with
    | none => simp [lexCharacters?, lexFrom?, LexerMode.step?, start, stop, mayEnd]
    | some next =>
      obtain ⟨mode, tokens⟩ := next
      have gap : LexerMode.gap.step? (.char c) = some (mode, tokens) := by
        simpa [LexerMode.step?] using start
      have number : LexerMode.step? (.number phase (some n)) (.char c) =
          some (mode, .number (some n) :: tokens) := by
        simp [LexerMode.step?, stop, mayEnd, start]
      rw [lexCharacters?_cons _ _ gap, lexCharacters?_cons _ _ number, Option.map_map]
      rfl

theorem lexCharacters?_digits {digits : List Char} (all : ∀ c ∈ digits, c.isDigit = true)
    (n : Nat) (rest : List Char) :
    lexCharacters? (.number .integer (some n)) (digits ++ rest) =
      lexCharacters? (.number .integer (some (Nat.ofDigitChars 10 digits n))) rest := by
  induction digits generalizing n with
  | nil => rfl
  | cons c digits ih =>
    have digit : c.isDigit = true := all c List.mem_cons_self
    have step : LexerMode.step? (.number .integer (some n)) (.char c) =
        some (.number .integer (some (n * 10 + digitValue c)), []) := by
      simp [LexerMode.step?, NumberPhase.next?, digit]
    rw [List.cons_append, lexCharacters?_quiet _ step, ih fun d mem => all d (by simp [mem]),
      Nat.ofDigitChars_cons]
    simp [digitValue, Nat.mul_comm]

theorem start?_digit {c : Char} (digit : c.isDigit = true) (notZero : c ≠ '0') :
    LexerMode.start? c = some (.number .integer (some (digitValue c)), []) := by
  unfold LexerMode.start?
  split <;> simp_all

/-- The first digit of a positive number is not zero. -/
theorem toDigits_eq_cons {n : Nat} (positive : 0 < n) :
    ∃ c digits, Nat.toDigits 10 n = c :: digits ∧ c ≠ '0' := by
  induction n using Nat.strongRecOn with
  | ind n ih =>
    by_cases small : n < 10
    · refine ⟨n.digitChar, [], Nat.toDigits_of_lt_base small, ?_⟩
      have all : ∀ n < 10, 0 < n → n.digitChar ≠ '0' := by decide
      exact all n small positive
    · obtain ⟨c, digits, eq, notZero⟩ := ih (n / 10) (by omega) (by omega)
      refine ⟨c, digits ++ [(n % 10).digitChar], ?_, notZero⟩
      rw [Nat.toDigits_of_base_le (by omega) (by omega), eq, List.cons_append]

/-- The digits of a number are read as the number. -/
theorem lexCharacters?_toDigits (n : Nat) {rest : List Char} (endsNumber : EndsNumber rest) :
    lexCharacters? .gap (Nat.toDigits 10 n ++ rest) =
      (lexCharacters? .gap rest).map (.number (some n) :: ·) := by
  by_cases zero : n = 0
  · subst zero
    rw [Nat.toDigits_zero, List.singleton_append,
      lexCharacters?_quiet (.number .zero (some 0)) (by simp [LexerMode.step?,
        LexerMode.start?]),
      lexCharacters?_number_end (.inl rfl) 0 endsNumber]
  · obtain ⟨c, digits, eq, notZero⟩ := toDigits_eq_cons (Nat.pos_of_ne_zero zero)
    have all : ∀ d ∈ c :: digits, d.isDigit = true := by
      intro d mem
      exact Nat.isDigit_of_mem_toDigits (by omega) (by omega) (eq ▸ mem)
    have digit : c.isDigit = true := all c List.mem_cons_self
    have value : Nat.ofDigitChars 10 digits (digitValue c) = n := by
      have := Nat.ofDigitChars_ten_toDigits (n := n)
      rw [eq, Nat.ofDigitChars_cons] at this
      simpa [digitValue] using this
    rw [eq, List.cons_append,
      lexCharacters?_quiet (.number .integer (some (digitValue c)))
        (by simpa [LexerMode.step?] using start?_digit digit notZero),
      lexCharacters?_digits (fun d mem => all d (by simp [mem])), value,
      lexCharacters?_number_end (.inr rfl) n endsNumber]

/-! ## Tokens -/

/-- The rest of a word completes its token. -/
theorem lexCharacters?_word (c : Char) (letters : List Char) (token : ReadToken)
    (rest : List Char) :
    lexCharacters? (.word (c :: letters) token) (c :: letters ++ rest) =
      (lexCharacters? .gap rest).map (token :: ·) := by
  induction letters generalizing c with
  | nil =>
    rw [List.singleton_append,
      lexCharacters?_cons .gap [token] (by simp [LexerMode.step?])]
    rfl
  | cons d letters ih =>
    rw [List.cons_append,
      lexCharacters?_quiet (.word (d :: letters) token) (by simp [LexerMode.step?]), ih]

theorem EndsNumber.nil : EndsNumber [] := by
  intro c mem
  contradiction

theorem EndsNumber.cons {c : Char} (rest : List Char)
    (h : c.isDigit = false ∧ c ≠ '.' ∧ c ≠ 'e' ∧ c ≠ 'E') : EndsNumber (c :: rest) := by
  intro d mem
  cases mem
  exact h

namespace JsonToken

/-- A mark is found again, whatever follows. -/
theorem lex_mark (token : JsonToken Nat String) {c : Char} (rest : List Char)
    (written : token.written = [c])
    (start : LexerMode.start? c = some (.gap, [token.found])) :
    lexCharacters? .gap (token.written ++ rest) =
      (lexCharacters? .gap rest).map (token.found :: ·) := by
  rw [written, List.singleton_append, lexCharacters?_cons .gap [token.found]
    (by simpa [LexerMode.step?] using start)]
  rfl

/-- A text is found again, whatever follows. -/
theorem lex_text (text : String) (rest : List Char) :
    lexCharacters? .gap ((JsonToken.text text).written ++ rest) =
      (lexCharacters? .gap rest).map ((JsonToken.text text).found :: ·) := by
  rw [JsonToken.written, List.cons_append, List.append_assoc, List.singleton_append,
    lexCharacters?_quiet (.text []) (by simp [LexerMode.step?, LexerMode.start?]),
    lexCharacters?_escapes, lexCharacters?_closeQuote, String.ofList_toList, JsonToken.found]

/-- A written token is found again. -/
theorem lex_written (token : JsonToken Nat String) {rest : List Char}
    (ends : ∀ n, token = .number n → EndsNumber rest) :
    lexCharacters? .gap (token.written ++ rest) =
      (lexCharacters? .gap rest).map (token.found :: ·) := by
  cases token with
  | beginList => exact lex_mark _ rest rfl rfl
  | endList => exact lex_mark _ rest rfl rfl
  | beginObject => exact lex_mark _ rest rfl rfl
  | endObject => exact lex_mark _ rest rfl rfl
  | comma => exact lex_mark _ rest rfl rfl
  | colon => exact lex_mark _ rest rfl rfl
  | null =>
    rw [JsonToken.written, List.cons_append,
      lexCharacters?_quiet (.word ['u', 'l', 'l'] .null) rfl]
    exact lexCharacters?_word 'u' ['l', 'l'] .null rest
  | bool b =>
    cases b with
    | true =>
      rw [JsonToken.written, List.cons_append,
        lexCharacters?_quiet (.word ['r', 'u', 'e'] (.bool true)) rfl]
      exact lexCharacters?_word 'r' ['u', 'e'] (.bool true) rest
    | false =>
      rw [JsonToken.written, List.cons_append,
        lexCharacters?_quiet (.word ['a', 'l', 's', 'e'] (.bool false)) rfl]
      exact lexCharacters?_word 'a' ['l', 's', 'e'] (.bool false) rest
  | number n => exact lexCharacters?_toDigits n (ends n rfl)
  | text t => exact lex_text t rest

end JsonToken

/-! ## Layouts -/

namespace JsonPiece

/-- A piece is a number. -/
def IsNumber (piece : JsonPiece) : Prop :=
  ∃ n, piece = .token (.number n)

@[simp] theorem isNumber_token (token : JsonToken Nat String) :
    (JsonPiece.token token).IsNumber ↔ ∃ n, token = .number n := by
  simp [IsNumber]

@[simp] theorem not_isNumber_space : ¬ space.IsNumber := by simp [IsNumber]

@[simp] theorem not_isNumber_line (depth : Nat) : ¬ (line depth).IsNumber := by simp [IsNumber]

/-- No two numbers stand one after the other, so each ends where the next piece begins. -/
def Parted (pieces : List JsonPiece) : Prop :=
  pieces.IsChain fun first second => first.IsNumber → ¬ second.IsNumber

@[simp] theorem parted_nil : Parted [] := .nil

@[simp] theorem parted_singleton (piece : JsonPiece) : Parted [piece] := .singleton piece

/-- A piece that is no number may stand before any other. -/
theorem parted_cons {piece : JsonPiece} {pieces : List JsonPiece} (noNumber : ¬ piece.IsNumber) :
    Parted (piece :: pieces) ↔ Parted pieces := by
  simp [Parted, List.isChain_cons, noNumber]

/-- A piece that is no number may stand between any others. -/
theorem parted_append {piece : JsonPiece} {before after : List JsonPiece}
    (noNumber : ¬ piece.IsNumber) :
    Parted (before ++ piece :: after) ↔ Parted before ∧ Parted after := by
  simp [Parted, List.isChain_append, List.isChain_cons, noNumber]

@[simp] theorem token?_token (token : JsonToken Nat String) :
    (JsonPiece.token token).token? = some token := by simp [token?]

@[simp] theorem token?_space : space.token? = none := by simp [token?]

@[simp] theorem token?_line (depth : Nat) : (line depth).token? = none := by simp [token?]

/-- Every piece but a number ends a number before it. -/
theorem endsNumber_written {piece : JsonPiece} (noNumber : ¬ piece.IsNumber)
    (rest : List Char) : EndsNumber (piece.written ++ rest) := by
  cases piece with
  | space => exact .cons rest (by decide)
  | line depth => exact .cons _ (by decide)
  | token token =>
    cases token with
    | number n => exact absurd ⟨n, rfl⟩ noNumber
    | bool b => cases b <;> exact .cons _ (by decide)
    | _ => exact .cons _ (by decide)

theorem lex_spaces (count : Nat) (rest : List Char) :
    lexCharacters? .gap (List.replicate count ' ' ++ rest) = lexCharacters? .gap rest := by
  induction count with
  | zero => rfl
  | succ count ih =>
    rw [List.replicate_succ, List.cons_append,
      lexCharacters?_quiet .gap (by simp [LexerMode.step?, LexerMode.start?]), ih]

/-- The token of a piece is found again, and nothing of a gap. -/
theorem lex_written (piece : JsonPiece) {rest : List Char}
    (ends : piece.IsNumber → EndsNumber rest) :
    lexCharacters? .gap (piece.written ++ rest) =
      (lexCharacters? .gap rest).map ((piece.token?.map JsonToken.found).toList ++ ·) := by
  cases piece with
  | token token =>
    exact JsonToken.lex_written token fun n same => ends ⟨n, by rw [same]⟩
  | space =>
    rw [written, List.singleton_append,
      lexCharacters?_quiet .gap (by simp [LexerMode.step?, LexerMode.start?])]
    simp [token?]
  | line depth =>
    rw [written, List.cons_append,
      lexCharacters?_quiet .gap (by simp [LexerMode.step?, LexerMode.start?]), lex_spaces]
    simp [token?]

/-- The tokens of a layout are found again. -/
theorem lex_pieces {pieces : List JsonPiece} (parted : Parted pieces) :
    lexCharacters? .gap (pieces.flatMap written) =
      some ((pieces.filterMap token?).map JsonToken.found) := by
  induction pieces with
  | nil => rfl
  | cons piece more ih =>
    have ends (number : piece.IsNumber) : EndsNumber (more.flatMap written) := by
      cases more with
      | nil => exact .nil
      | cons next more =>
        exact endsNumber_written ((List.isChain_cons.1 parted).1 next rfl number) _
    rw [List.flatMap_cons, lex_written piece ends, ih (List.isChain_cons.1 parted).2]
    cases piece <;> rfl

end JsonPiece

namespace JsonValue

mutual

theorem parted_tokens : ∀ value : JsonDocument, JsonPiece.Parted (value.tokens.map .token)
  | .null | .bool _ | .number _ | .text _ => by simp [tokens]
  | .list items => by
    simpa [tokens, JsonPiece.parted_cons, JsonPiece.parted_append] using parted_itemTokens items
  | .object members => by
    simpa [tokens, JsonPiece.parted_cons, JsonPiece.parted_append] using
      parted_memberTokens members

theorem parted_itemTokens : ∀ items : List JsonDocument,
    JsonPiece.Parted ((itemTokens items).map .token)
  | [] => by simp [itemTokens]
  | [item] => by simpa [itemTokens] using parted_tokens item
  | item :: next :: more => by
    simpa [itemTokens, JsonPiece.parted_append] using
      And.intro (parted_tokens item) (parted_itemTokens (next :: more))

theorem parted_memberTokens : ∀ members : List (String × JsonDocument),
    JsonPiece.Parted ((memberTokens members).map .token)
  | [] => by simp [memberTokens]
  | [(key, value)] => by simpa [memberTokens, JsonPiece.parted_cons] using parted_tokens value
  | (key, value) :: next :: more => by
    simpa [memberTokens, JsonPiece.parted_cons, JsonPiece.parted_append] using
      And.intro (parted_tokens value) (parted_memberTokens (next :: more))

end

mutual

theorem parted_indentedPieces (depth : Nat) : ∀ value : JsonDocument,
    JsonPiece.Parted (indentedPieces depth value)
  | .null | .bool _ | .number _ | .text _ | .list [] | .object [] => by
    simp [indentedPieces, JsonPiece.parted_cons]
  | .list (item :: more) => by
    simpa [indentedPieces, JsonPiece.parted_cons, JsonPiece.parted_append] using
      parted_indentedItems (depth + 1) (item :: more)
  | .object (member :: more) => by
    simpa [indentedPieces, JsonPiece.parted_cons, JsonPiece.parted_append] using
      parted_indentedMembers (depth + 1) (member :: more)

theorem parted_indentedItems (depth : Nat) : ∀ items : List JsonDocument,
    JsonPiece.Parted (indentedItems depth items)
  | [] => by simp [indentedItems]
  | [item] => by
    simpa [indentedItems, JsonPiece.parted_cons] using parted_indentedPieces depth item
  | item :: next :: more => by
    simpa [indentedItems, JsonPiece.parted_cons, JsonPiece.parted_append] using
      And.intro (parted_indentedPieces depth item) (parted_indentedItems depth (next :: more))

theorem parted_indentedMembers (depth : Nat) : ∀ members : List (String × JsonDocument),
    JsonPiece.Parted (indentedMembers depth members)
  | [] => by simp [indentedMembers]
  | [(key, value)] => by
    simpa [indentedMembers, JsonPiece.parted_cons] using parted_indentedPieces depth value
  | (key, value) :: next :: more => by
    simpa [indentedMembers, JsonPiece.parted_cons, JsonPiece.parted_append] using
      And.intro (parted_indentedPieces depth value)
        (parted_indentedMembers depth (next :: more))

end

mutual

/-- The indented layout holds exactly the tokens of the value. -/
theorem indentedPieces_tokens (depth : Nat) : ∀ value : JsonDocument,
    (indentedPieces depth value).filterMap JsonPiece.token? = value.tokens
  | .null | .bool _ | .number _ | .text _ => by simp [indentedPieces, tokens]
  | .list [] | .object [] => by simp [indentedPieces, tokens, itemTokens, memberTokens]
  | .list (item :: more) => by
    simp [indentedPieces, tokens, indentedItems_tokens (depth + 1) (item :: more)]
  | .object (member :: more) => by
    simp [indentedPieces, tokens, indentedMembers_tokens (depth + 1) (member :: more)]

theorem indentedItems_tokens (depth : Nat) : ∀ items : List JsonDocument,
    (indentedItems depth items).filterMap JsonPiece.token? = itemTokens items
  | [] => by simp [indentedItems, itemTokens]
  | [item] => by simp [indentedItems, itemTokens, indentedPieces_tokens depth item]
  | item :: next :: more => by
    simp [indentedItems, itemTokens, indentedPieces_tokens depth item,
      indentedItems_tokens depth (next :: more)]

theorem indentedMembers_tokens (depth : Nat) : ∀ members : List (String × JsonDocument),
    (indentedMembers depth members).filterMap JsonPiece.token? = memberTokens members
  | [] => by simp [indentedMembers, memberTokens]
  | [(key, value)] => by
    simp [indentedMembers, memberTokens, indentedPieces_tokens depth value]
  | (key, value) :: next :: more => by
    simp [indentedMembers, memberTokens, indentedPieces_tokens depth value,
      indentedMembers_tokens depth (next :: more)]

end

end JsonValue

/-! ## Values -/

namespace JsonValue

variable {ν τ : Type}

theorem itemTokens_cons_cons (item next : JsonValue ν τ) (more : List (JsonValue ν τ)) :
    itemTokens (item :: next :: more) = item.tokens ++ .comma :: itemTokens (next :: more) := by
  rw [itemTokens]
  simp

theorem memberTokens_cons_cons (key : τ) (value : JsonValue ν τ) (next : τ × JsonValue ν τ)
    (more : List (τ × JsonValue ν τ)) :
    memberTokens ((key, value) :: next :: more) =
      .text key :: .colon :: (value.tokens ++ .comma :: memberTokens (next :: more)) := by
  rw [memberTokens]
  simp

/-- The tokens of a list start with those of its first item. -/
theorem itemTokens_cons (item : JsonValue ν τ) (more : List (JsonValue ν τ)) :
    ∃ later, itemTokens (item :: more) = item.tokens ++ later := by
  cases more with
  | nil => exact ⟨[], by rw [itemTokens, List.append_nil]⟩
  | cons next more => exact ⟨_, itemTokens_cons_cons item next more⟩

/-- The tokens of an object start with its first key and a colon. -/
theorem memberTokens_cons (key : τ) (value : JsonValue ν τ) (more : List (τ × JsonValue ν τ)) :
    ∃ later, memberTokens ((key, value) :: more) = .text key :: .colon :: later := by
  cases more with
  | nil => exact ⟨_, by rw [memberTokens]⟩
  | cons next more => exact ⟨_, memberTokens_cons_cons key value next more⟩

end JsonValue

namespace JsonReader

variable {ν τ : Type}

/-- A value's first token starts a value also where a list may end. -/
theorem step?_firstItem {frames : List (Frame ν τ)} (before : List (JsonValue ν τ))
    {token : JsonToken ν τ} (notEnd : token ≠ .endList) :
    State.step? ⟨.firstItem, .list before :: frames⟩ token =
      State.step? ⟨.value, .list before :: frames⟩ token := by
  cases token <;> first | rfl | exact absurd rfl notEnd

theorem readFrom?_cons {state : State ν τ} {token : JsonToken ν τ} (next : State ν τ)
    (step : state.step? token = some next) (rest : List (JsonToken ν τ)) :
    readFrom? state (token :: rest) = readFrom? next rest := by
  rw [readFrom?, step, Option.bind_some]

/-- The first token of a value closes no list. -/
theorem tokens_eq_cons (value : JsonValue ν τ) :
    ∃ token more, value.tokens = token :: more ∧ token ≠ .endList := by
  cases value <;> exact ⟨_, _, by rw [JsonValue.tokens], by simp⟩

theorem readFrom?_firstItem (value : JsonValue ν τ) (before : List (JsonValue ν τ))
    (frames : List (Frame ν τ)) (rest : List (JsonToken ν τ)) :
    readFrom? ⟨.firstItem, .list before :: frames⟩ (value.tokens ++ rest) =
      readFrom? ⟨.value, .list before :: frames⟩ (value.tokens ++ rest) := by
  obtain ⟨token, more, eq, notEnd⟩ := tokens_eq_cons value
  rw [eq, List.cons_append, readFrom?, readFrom?, step?_firstItem before notEnd]

mutual

/-- The tokens of a value are read as the value. -/
theorem read_tokens : ∀ (value : JsonValue ν τ) (frames : List (Frame ν τ))
    (rest : List (JsonToken ν τ)),
    readFrom? ⟨.value, frames⟩ (value.tokens ++ rest) = readFrom? ⟨.after value, frames⟩ rest
  | .null, frames, rest => by rw [JsonValue.tokens]; exact readFrom?_cons _ rfl rest
  | .bool b, frames, rest => by rw [JsonValue.tokens]; exact readFrom?_cons _ rfl rest
  | .number n, frames, rest => by rw [JsonValue.tokens]; exact readFrom?_cons _ rfl rest
  | .text t, frames, rest => by rw [JsonValue.tokens]; exact readFrom?_cons _ rfl rest
  | .list [], frames, rest => by
    rw [JsonValue.tokens, JsonValue.itemTokens, List.nil_append, List.cons_append,
      readFrom?_cons ⟨.firstItem, .list [] :: frames⟩ rfl]
    exact readFrom?_cons _ rfl rest
  | .list (item :: more), frames, rest => by
    have items := read_itemTokens (item :: more) (by simp) [] frames rest
    obtain ⟨later, eq⟩ := JsonValue.itemTokens_cons item more
    rw [eq, List.append_assoc] at items
    rw [JsonValue.tokens, List.cons_append, List.append_assoc,
      readFrom?_cons ⟨.firstItem, .list [] :: frames⟩ rfl, eq, List.append_assoc,
      readFrom?_firstItem]
    exact items
  | .object [], frames, rest => by
    rw [JsonValue.tokens, JsonValue.memberTokens, List.nil_append, List.cons_append,
      readFrom?_cons ⟨.firstKey, .object [] :: frames⟩ rfl]
    exact readFrom?_cons _ rfl rest
  | .object ((key, value) :: more), frames, rest => by
    have members := read_memberTokens ((key, value) :: more) (by simp) [] frames rest
    obtain ⟨later, eq⟩ := JsonValue.memberTokens_cons key value more
    rw [eq, List.cons_append,
      readFrom?_cons ⟨.colon, .member [] key :: frames⟩ rfl] at members
    rw [JsonValue.tokens, List.cons_append, List.append_assoc,
      readFrom?_cons ⟨.firstKey, .object [] :: frames⟩ rfl, eq, List.cons_append,
      readFrom?_cons ⟨.colon, .member [] key :: frames⟩ rfl]
    exact members

/-- The items of a list are read as its items. -/
theorem read_itemTokens : ∀ (items : List (JsonValue ν τ)), items ≠ [] →
    ∀ (before : List (JsonValue ν τ)) (frames : List (Frame ν τ)) (rest : List (JsonToken ν τ)),
    readFrom? ⟨.value, .list before :: frames⟩
        (JsonValue.itemTokens items ++ ([.endList] ++ rest)) =
      readFrom? ⟨.after (.list (before.reverse ++ items)), frames⟩ rest
  | [], nonempty, _, _, _ => absurd rfl nonempty
  | [item], _, before, frames, rest => by
    rw [JsonValue.itemTokens, read_tokens, List.singleton_append, readFrom?_cons _ rfl]
    simp
  | item :: next :: more, _, before, frames, rest => by
    have later := read_itemTokens (next :: more) (by simp) (item :: before) frames rest
    rw [JsonValue.itemTokens_cons_cons, List.append_assoc, read_tokens, List.cons_append,
      readFrom?_cons ⟨.value, .list (item :: before) :: frames⟩ rfl, later]
    simp

/-- The members of an object are read as its members. -/
theorem read_memberTokens : ∀ (members : List (τ × JsonValue ν τ)), members ≠ [] →
    ∀ (before : List (τ × JsonValue ν τ)) (frames : List (Frame ν τ))
      (rest : List (JsonToken ν τ)),
    readFrom? ⟨.key, .object before :: frames⟩
        (JsonValue.memberTokens members ++ ([.endObject] ++ rest)) =
      readFrom? ⟨.after (.object (before.reverse ++ members)), frames⟩ rest
  | [], nonempty, _, _, _ => absurd rfl nonempty
  | [(key, value)], _, before, frames, rest => by
    rw [JsonValue.memberTokens, List.cons_append, List.cons_append,
      readFrom?_cons ⟨.colon, .member before key :: frames⟩ rfl,
      readFrom?_cons ⟨.value, .member before key :: frames⟩ rfl, read_tokens,
      List.singleton_append, readFrom?_cons _ rfl]
    simp
  | (key, value) :: next :: more, _, before, frames, rest => by
    have later := read_memberTokens (next :: more) (by simp) ((key, value) :: before) frames rest
    rw [JsonValue.memberTokens_cons_cons, List.cons_append, List.cons_append,
      List.append_assoc,
      readFrom?_cons ⟨.colon, .member before key :: frames⟩ rfl,
      readFrom?_cons ⟨.value, .member before key :: frames⟩ rfl, read_tokens,
      List.cons_append,
      readFrom?_cons ⟨.key, .object ((key, value) :: before) :: frames⟩ rfl, later]
    simp

end

end JsonReader

namespace JsonValue

mutual

theorem tokens_reading : ∀ value : JsonDocument,
    value.reading.tokens = value.tokens.map JsonToken.found
  | .null => by simp [reading, tokens, JsonToken.found]
  | .bool b => by simp [reading, tokens, JsonToken.found]
  | .number n => by simp [reading, tokens, JsonToken.found]
  | .text t => by simp [reading, tokens, JsonToken.found]
  | .list items => by simp [reading, tokens, JsonToken.found, itemTokens_readings items]
  | .object members => by
    simp [reading, tokens, JsonToken.found, memberTokens_memberReadings members]

theorem itemTokens_readings : ∀ items : List JsonDocument,
    itemTokens (readings items) = (itemTokens items).map JsonToken.found
  | [] => by simp [readings, itemTokens]
  | [item] => by simp [readings, itemTokens, tokens_reading item]
  | item :: next :: more => by
    have later := itemTokens_readings (next :: more)
    rw [readings] at later
    simp [readings, itemTokens, tokens_reading item, later, JsonToken.found]

theorem memberTokens_memberReadings : ∀ members : List (String × JsonDocument),
    memberTokens (memberReadings members) = (memberTokens members).map JsonToken.found
  | [] => by simp [memberReadings, memberTokens]
  | [(key, value)] => by
    simp [memberReadings, memberTokens, tokens_reading value, JsonToken.found]
  | (key, value) :: (nextKey, nextValue) :: more => by
    have later := memberTokens_memberReadings ((nextKey, nextValue) :: more)
    rw [memberReadings] at later
    simp [memberReadings, memberTokens, tokens_reading value, later, JsonToken.found]

end

/-- A layout of a document is read as the document. -/
theorem parse_ofPieces {pieces : List JsonPiece} (parted : JsonPiece.Parted pieces)
    {value : JsonDocument} (holds : pieces.filterMap JsonPiece.token? = value.tokens) :
    parse? (Text.bytes (ofPieces pieces)) = some value.reading := by
  have found : lex? (Text.bytes (ofPieces pieces)) = some (value.tokens.map JsonToken.found) := by
    have := JsonPiece.lex_pieces parted
    rw [holds, lexCharacters?] at this
    rw [lex?, Text.bytes, symbols_encode, ofPieces, String.toList_ofList, this]
  have read := JsonReader.read_tokens value.reading [] []
  rw [List.append_nil] at read
  rw [parse?, found, Option.bind_some, JsonReader.read?, ← tokens_reading]
  exact read

/-- A document in compact layout is read as itself. -/
theorem parse_compact (value : JsonDocument) :
    parse? (Text.bytes value.compact) = some value.reading :=
  parse_ofPieces (parted_tokens value) (compactPieces_tokens value)

/-- A document in indented layout is read as itself. -/
theorem parse_indented (value : JsonDocument) :
    parse? (Text.bytes value.indented) = some value.reading :=
  parse_ofPieces (parted_indentedPieces 0 value) (indentedPieces_tokens 0 value)

end JsonValue

end LocaleWatch
