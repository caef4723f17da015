import LocaleWatch.Text.Quoted

/-!
# Language codes

A language code names a directory and a report file, so it is limited to letters,
digits, `-` and `_` of ASCII and starts with no hyphen: `ja`, `zh-CN`, `pt_BR`.

## Main results

* `LanguageCode.check_eq_ok_iff` — a text is accepted exactly if it is a code.
-/

namespace LocaleWatch

open Text

/-- A text that is no language code. -/
structure InvalidLanguage where
  code : String
  deriving DecidableEq, Repr

/-- The wording of the refusal. -/
def InvalidLanguage.message (error : InvalidLanguage) : String :=
  "invalid language code " ++ quote error.code ++ ": expected letters, digits, '-' or '_'"

namespace LanguageCode

/-- Whether a character may stand in a language code. -/
def isAllowed (c : Char) : Bool :=
  c.isAlphanum || c = '-' || c = '_'

/-- Whether a text is a language code. -/
def isValid (code : String) : Bool :=
  !code.isEmpty && code.toList.all isAllowed && code.toList.head? ≠ some '-'

/-- Accept language codes only. -/
def check (code : String) : Except InvalidLanguage Unit :=
  if isValid code then .ok () else .error ⟨code⟩

/-- Accept a list of language codes, or refuse its first other text. -/
def checkAll : List String → Except InvalidLanguage Unit
  | [] => .ok ()
  | code :: rest =>
    match check code with
    | .error error => .error error
    | .ok () => checkAll rest

theorem check_eq_ok_iff {code : String} : check code = .ok () ↔ isValid code = true := by
  unfold check; split <;> simp_all

theorem checkAll_eq_ok_iff {codes : List String} :
    checkAll codes = .ok () ↔ ∀ code ∈ codes, isValid code = true := by
  induction codes with
  | nil => simp [checkAll]
  | cons code rest ih =>
    rw [checkAll, List.forall_mem_cons, ← ih, ← check_eq_ok_iff]
    cases check code <;> simp

end LanguageCode

end LocaleWatch
