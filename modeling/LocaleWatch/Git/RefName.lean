import LocaleWatch.Repository.Error

/-!
# Names of remotes and branches

A name that is given as an argument must not be read as an option or as a range: it is
not empty, has no `..`, starts with no hyphen and holds no character below the space.
-/

namespace LocaleWatch

open Text

namespace RefName

/-- What a name is refused for. -/
def refusal? (name : String) : Option String :=
  if name.isEmpty then some "cannot be empty"
  else if hasDoubleDot name.toList then some "cannot contain '..'"
  else if name.toList.head? = some '-' then some "cannot start with '-'"
  else if name.toList.any fun c => c.toNat < 0x20 then
    some "cannot contain null or control characters"
  else none

/-- Accept a name; `role` says in the refusal what it is the name of. -/
def check (role name : String) : Except RepositoryError Unit :=
  match refusal? name with
  | some refusal => .error (.invalidInput (role ++ " " ++ refusal))
  | none => .ok ()

theorem check_eq_ok_iff {role name : String} :
    check role name = .ok () ↔ refusal? name = none := by
  unfold check; split <;> simp_all

end RefName

end LocaleWatch
