import LocaleWatch.Path
import LocaleWatch.Repository.Error
import LocaleWatch.Text.Sorted

/-!
# Listings of directories

A listing is what a walk through a directory finds. The system gives the entries of a
directory in no particular order, and it may refuse to give them at all.

The files of a listing are all its entries that are no directories, each by its path from
the top. Nothing that is named `.git`, and nothing below it, is among them. A path that is
no text fails the whole listing, so that no file is passed over in silence.
-/

namespace LocaleWatch

/-- The path of a query as text; only such paths can be arguments. -/
def Path.argument (operation : String) (path : Path) : Except RepositoryError String :=
  match path.text? with
  | some text => .ok text
  | none => .error (.invalidInput (operation ++ ": path is not valid UTF-8: " ++ path.display))

/-- What a walk finds at one place. -/
inductive Listing where
  | file
  | directory (entries : List (List UInt8 × Listing))
  /-- A directory that the system did not give the entries of. -/
  | unreadable (fault : Fault)
  deriving Repr, Inhabited

namespace Listing

/-- The name of what belongs to the version-control program. -/
def metadataName : List UInt8 := Text.bytes ".git"

/-- The path of an entry of the directory at `here`. -/
def pathOf (here name : List UInt8) : List UInt8 :=
  if here.isEmpty then name else here ++ slash :: name

mutual

/-- The files at and below a place whose path from the top is `here`, in the order of
the walk. -/
def filesFrom (operation : String) (here : List UInt8) :
    Listing → Except RepositoryError (List String)
  | .file => (Path.argument operation ⟨here⟩).map ([·])
  | .directory entries => filesAmong operation here entries
  | .unreadable fault => .error (.system operation fault)

/-- The files of the entries of the directory at `here`. -/
def filesAmong (operation : String) (here : List UInt8) :
    List (List UInt8 × Listing) → Except RepositoryError (List String)
  | [] => .ok []
  | (name, listing) :: rest =>
    if name = metadataName then filesAmong operation here rest
    else do
      let inner ← filesFrom operation (pathOf here name) listing
      return inner ++ (← filesAmong operation here rest)

end

/-- The files of a listing, ascending. -/
def files (operation : String) (listing : Listing) : Except RepositoryError (List String) :=
  (filesFrom operation [] listing).map Text.ascending

end Listing

end LocaleWatch
