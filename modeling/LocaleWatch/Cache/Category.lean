import LocaleWatch.Text.Quoted
import LocaleWatch.Text.Split

/-!
# Categories of cache entries

A category is the name of the directory that holds its entries, so it has to be a
single, visible file name: not empty, without `..`, separators and control
characters, and starting with neither `-` nor `.`.

## Main results

* `Category.check_eq_ok_iff` — a text is accepted exactly if it has no flaw.
-/

namespace LocaleWatch

open Text

/-- Why a text is no category. -/
inductive Category.Flaw where
  | empty
  | doubleDot
  | separator
  | start
  | control
  deriving DecidableEq, Repr

/-- The wording of a flaw. -/
def Category.Flaw.reason : Category.Flaw → String
  | .empty => "cannot be empty"
  | .doubleDot => "cannot contain '..'"
  | .separator => "cannot contain path separators"
  | .start => "cannot start with '-' or '.'"
  | .control => "cannot contain null or control characters"

/-- The first flaw of a text as a category. -/
def Category.flaw? (category : String) : Option Category.Flaw :=
  let characters := category.toList
  if characters.isEmpty then some .empty
  else if hasDoubleDot characters then some .doubleDot
  else if characters.any fun c => c = '/' || c = '\\' then some .separator
  else if characters.head? = some '-' || characters.head? = some '.' then some .start
  else if characters.any fun c => c.toNat < 0x20 then some .control
  else none

/-- A text that is no category. -/
structure InvalidCategory where
  category : String
  flaw : Category.Flaw
  deriving DecidableEq, Repr

/-- The wording of the refusal. -/
def InvalidCategory.message (error : InvalidCategory) : String :=
  "invalid cache category " ++ quote error.category ++ ": " ++ error.flaw.reason

/-- Accept categories only. -/
def Category.check (category : String) : Except InvalidCategory Unit :=
  match Category.flaw? category with
  | some flaw => .error ⟨category, flaw⟩
  | none => .ok ()

theorem Category.check_eq_ok_iff {category : String} :
    Category.check category = .ok () ↔ Category.flaw? category = none := by
  unfold Category.check; split <;> simp_all

end LocaleWatch
