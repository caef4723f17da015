import LocaleWatch.Listing

/-!
# File trees

A file tree says what stands at each location: a file with its bytes, a directory, or
nothing. A location is the list of names that lead there from the root.

## Main results

* `get?_put_self`, `get?_put_of_ne`, `get?_erase_self`, `get?_erase_of_ne` — a change at
  one location is seen there and nowhere else.
-/

namespace LocaleWatch

/-- Where something stands: the names that lead there from the root. -/
abbrev Location := List (List UInt8)

/-- The absolute path of a location. -/
def Location.path (location : Location) : Path :=
  ⟨slash :: [slash].intercalate location⟩

/-- What stands at a location. -/
inductive FileEntry where
  | file (bytes : List UInt8)
  | directory
  deriving DecidableEq, Repr

/-- Files and directories by their locations. -/
structure FileTree where
  /-- What stands at each location but the root. -/
  entries : List (Location × FileEntry)
  deriving DecidableEq, Repr, Inhabited

namespace FileTree

/-- The tree with nothing below its root. -/
def empty : FileTree := ⟨[]⟩

/-- What stands at a location. The root is a directory. -/
def get? (tree : FileTree) (location : Location) : Option FileEntry :=
  if location = [] then some .directory else tree.entries.lookup location

/-- Remove what stands at a location. -/
def erase (tree : FileTree) (location : Location) : FileTree :=
  ⟨tree.entries.filter (·.1 ≠ location)⟩

/-- Put something at a location in place of what stood there. -/
def put (tree : FileTree) (location : Location) (entry : FileEntry) : FileTree :=
  ⟨(location, entry) :: (tree.erase location).entries⟩

/-- The names that lead from a directory to a location below it. -/
def Location.from? (directory location : Location) : Option Location :=
  if directory.isPrefixOf location && directory.length < location.length then
    some (location.drop directory.length)
  else none

/-- What stands below a directory, each by the names that lead there from it. -/
def below (tree : FileTree) (directory : Location) : List (Location × FileEntry) :=
  tree.entries.filterMap fun (location, entry) =>
    (Location.from? directory location).map fun inner => (inner, entry)

/-- The files below a directory and the empty directories, each by its path from there.
The path of a directory ends in a separator; its bytes are none. -/
def contents (tree : FileTree) (directory : Location) : List (Path × List UInt8) :=
  let inner := tree.below directory
  inner.filterMap fun (location, entry) =>
    let path : List UInt8 := [slash].intercalate location
    match entry with
    | .file bytes => some (⟨path⟩, bytes)
    | .directory =>
      if inner.any fun (other, _) => (Location.from? location other).isSome then none
      else some (⟨path ++ [slash]⟩, [])

/-! ## Listings -/

/-- Put a file or a directory into a listing. -/
def addTo (entry : FileEntry) : Location → Listing → Listing
  | [], listing =>
    match entry, listing with
    | .file _, _ => .file
    | .directory, .directory entries => .directory entries
    | .directory, _ => .directory []
  | name :: rest, listing =>
    let entries := match listing with
      | .directory entries => entries
      | _ => []
    let inner := addTo entry rest ((entries.lookup name).getD (.directory []))
    .directory (entries.filter (·.1 ≠ name) ++ [(name, inner)])

/-- The listing of a directory. -/
def listing (tree : FileTree) (directory : Location) : Listing :=
  (tree.below directory).foldr (fun (location, entry) => addTo entry location) (.directory [])

/-! ## Laws -/

private theorem lookup_filter_self (location : Location)
    (entries : List (Location × FileEntry)) :
    (entries.filter (·.1 ≠ location)).lookup location = none := by
  induction entries with
  | nil => rfl
  | cons entry rest ih =>
    obtain ⟨other, value⟩ := entry
    by_cases h : other = location
    · simp [h, ← ih]
    · have : (location == other) = false := beq_eq_false_iff_ne.2 (Ne.symm h)
      simp only [ne_eq, h, not_false_eq_true, decide_true, List.filter_cons_of_pos,
        List.lookup_cons, this]
      exact ih

private theorem lookup_filter_of_ne {location other : Location} (ne : other ≠ location)
    (entries : List (Location × FileEntry)) :
    (entries.filter (·.1 ≠ location)).lookup other = entries.lookup other := by
  induction entries with
  | nil => rfl
  | cons entry rest ih =>
    obtain ⟨first, value⟩ := entry
    by_cases h : first = location
    · subst h
      have : (other == first) = false := beq_eq_false_iff_ne.2 ne
      simp only [ne_eq, not_true_eq_false, decide_false, Bool.false_eq_true, not_false_eq_true,
        List.filter_cons_of_neg, List.lookup_cons, this]
      exact ih
    · simp only [ne_eq, h, not_false_eq_true, decide_true, List.filter_cons_of_pos,
        List.lookup_cons]
      split
      · rfl
      · exact ih

/-- Nothing stands where something was removed. -/
theorem get?_erase_self (tree : FileTree) {location : Location} (inner : location ≠ []) :
    (tree.erase location).get? location = none := by
  simp only [get?, inner, if_false, erase]
  exact lookup_filter_self location tree.entries

/-- A removal is not seen elsewhere. -/
theorem get?_erase_of_ne (tree : FileTree) {location other : Location} (ne : other ≠ location) :
    (tree.erase location).get? other = tree.get? other := by
  simp only [get?, erase]
  split
  · rfl
  · exact lookup_filter_of_ne ne tree.entries

/-- What was put somewhere stands there. -/
theorem get?_put_self (tree : FileTree) {location : Location} (inner : location ≠ [])
    (entry : FileEntry) : (tree.put location entry).get? location = some entry := by
  simp [get?, put, inner]

/-- What was put somewhere is not seen elsewhere. -/
theorem get?_put_of_ne (tree : FileTree) {location other : Location} (ne : other ≠ location)
    (entry : FileEntry) : (tree.put location entry).get? other = tree.get? other := by
  have skip : (other == location) = false := beq_eq_false_iff_ne.2 ne
  rw [← get?_erase_of_ne tree ne]
  simp [get?, put, List.lookup_cons, skip]

end FileTree

end LocaleWatch
