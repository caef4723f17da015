import LocaleWatch.Text.Split
import LocaleWatch.Text.Utf8

/-!
# Paths

A path is any list of bytes. It is read as components separated by `/`: empty
components and `.` mean nothing, a leading `/` is the root, `..` is the directory
above, and everything else is a name.

A file of the repository is known by its *key*: the path's components, each as
text, joined by single `/`. Listings of the repository print files this way, so
everything that is stored about a file is stored under its key.

## Main results

* `Path.components_join` — joining a relative path appends its components.
-/

namespace LocaleWatch

open Text

/-- The byte `/`. -/
def slash : UInt8 := 0x2F

/-- The byte `.`. -/
def fullStop : UInt8 := 0x2E

/-- A path: any list of bytes. -/
structure Path where
  bytes : List UInt8
  deriving DecidableEq, Repr, Inhabited

namespace Path

/-- The path that a text writes. -/
def ofText (text : String) : Path := ⟨Text.bytes text⟩

/-- How a path is shown: as text, each run of bytes that is no text as U+FFFD. -/
def display (path : Path) : String := lossyText path.bytes

/-- The path as text, if it is text. -/
def text? (path : Path) : Option String := Text.text? path.bytes

/-- Whether a path starts at the root. -/
def isAbsolute (path : Path) : Bool := path.bytes.head? = some slash

/-- A step of a path. -/
inductive Component where
  | root
  | up
  | name (bytes : List UInt8)
  deriving DecidableEq, Repr

/-- The bytes of a component. -/
def Component.bytes : Component → List UInt8
  | .root => [slash]
  | .up => [fullStop, fullStop]
  | .name bytes => bytes

/-- A component as text. -/
def Component.text (component : Component) : String := lossyText component.bytes

/-- The pieces of a byte list between the separators. -/
def pieces : List UInt8 → List (List UInt8)
  | [] => [[]]
  | b :: rest =>
    if b = slash then [] :: pieces rest
    else
      match pieces rest with
      | [] => [[b]]
      | piece :: more => (b :: piece) :: more

/-- The component that a piece between separators stands for. -/
def component? (piece : List UInt8) : Option Component :=
  if piece = [] ∨ piece = [fullStop] then none
  else if piece = [fullStop, fullStop] then some .up
  else some (.name piece)

/-- The components of a path. -/
def components (path : Path) : List Component :=
  (if path.isAbsolute then [.root] else []) ++ (pieces path.bytes).filterMap component?

/-- The key of a path: its components as text, joined by `/`. -/
def key (path : Path) : String :=
  "/".intercalate (path.components.map Component.text)

/-- The path that leads to `inner` from the directory `outer`. An absolute `inner`
stands for itself; otherwise exactly one separator is put between two parts that
have none, also before an empty `inner`. -/
def join (outer inner : Path) : Path :=
  if inner.isAbsolute then inner
  else if outer.bytes = [] ∨ outer.bytes.getLast? = some slash then ⟨outer.bytes ++ inner.bytes⟩
  else ⟨outer.bytes ++ slash :: inner.bytes⟩

instance : Div Path := ⟨join⟩

/-- Remove the separators and `.` components at the end of a path whose bytes are
given in reverse. The root's separator stays. -/
def trimmed : List UInt8 → List UInt8
  | [] => []
  | [b] => [b]
  | b :: c :: rest =>
    if b = slash then trimmed (c :: rest)
    else if b = fullStop ∧ c = slash then trimmed (c :: rest)
    else b :: c :: rest

/-- The path without its last component; none for the root and the empty path. -/
def parent? (path : Path) : Option Path :=
  match path.components.getLast? with
  | none | some .root => none
  | some component =>
    let whole := trimmed path.bytes.reverse
    some ⟨(trimmed (whole.drop component.bytes.length)).reverse⟩

/-- The name at the end of a path, if its last component is a name. -/
def fileName? (path : Path) : Option (List UInt8) :=
  match path.components.getLast? with
  | some (.name bytes) => some bytes
  | _ => none

/-- The length of a file name up to its last full stop, that one left out; the
whole name if its only full stop is the first byte or it has none. -/
def stemLength (name : List UInt8) : Nat :=
  let tail := name.reverse.takeWhile (· ≠ fullStop)
  if tail.length + 1 < name.length then name.length - tail.length - 1 else name.length

/-- The path with `extension` in place of its file name's extension; a path
without a file name stays as it is. -/
def withExtension (path : Path) (extension : String) : Path :=
  match path.fileName? with
  | none => path
  | some name =>
    let whole := (trimmed path.bytes.reverse).reverse
    let stem := whole.take (whole.length - (name.length - stemLength name))
    ⟨stem ++ fullStop :: Text.bytes extension⟩

/-! ## Laws -/

theorem pieces_ne_nil (bytes : List UInt8) : pieces bytes ≠ [] := by
  cases bytes with
  | nil => simp [pieces]
  | cons b rest =>
    rw [pieces]
    split
    · simp
    · split <;> simp

/-- A separator starts a new piece. -/
theorem pieces_append_slash (outer inner : List UInt8) :
    pieces (outer ++ slash :: inner) = pieces outer ++ pieces inner := by
  induction outer with
  | nil => simp [pieces]
  | cons b rest ih =>
    rw [List.cons_append, pieces, pieces, ih]
    split
    · rfl
    · cases h : pieces rest with
      | nil => exact absurd h (pieces_ne_nil rest)
      | cons piece more => rfl

theorem pieces_of_not_mem {bytes : List UInt8} (whole : slash ∉ bytes) :
    pieces bytes = [bytes] := by
  induction bytes with
  | nil => rfl
  | cons b rest ih =>
    have no : b ≠ slash ∧ slash ∉ rest := by simpa [eq_comm] using whole
    rw [pieces, if_neg no.1, ih no.2]

/-- The components behind a separator follow those before it. -/
theorem components_append_slash (outer inner : List UInt8) :
    components ⟨outer ++ slash :: inner⟩ =
      components ⟨outer ++ [slash]⟩ ++ (pieces inner).filterMap component? := by
  have same : (⟨outer ++ slash :: inner⟩ : Path).isAbsolute =
      (⟨outer ++ [slash]⟩ : Path).isAbsolute := by
    cases outer <;> rfl
  simp only [components, same, pieces_append_slash, List.filterMap_append, List.append_assoc]
  simp [pieces, component?]

/-- A separator at the end means nothing, except for the root. -/
theorem components_append_end {outer : List UInt8} (filled : outer ≠ []) :
    components ⟨outer ++ [slash]⟩ = components ⟨outer⟩ := by
  have same : (⟨outer ++ [slash]⟩ : Path).isAbsolute = (⟨outer⟩ : Path).isAbsolute := by
    cases outer with
    | nil => contradiction
    | cons b rest => rfl
  simp only [components, same, pieces_append_slash]
  simp [pieces, component?]

theorem components_of_relative {path : Path} (relative : path.isAbsolute = false) :
    path.components = (pieces path.bytes).filterMap component? := by
  simp [components, relative]

theorem components_of_empty {path : Path} (empty : path.bytes = []) : path.components = [] := by
  simp [components, isAbsolute, empty, pieces, component?]

/-- Joining a relative path appends its components. -/
theorem components_join (outer : Path) {inner : Path} (relative : inner.isAbsolute = false) :
    (outer.join inner).components = outer.components ++ inner.components := by
  rw [components_of_relative relative, join, relative, if_neg Bool.false_ne_true]
  by_cases empty : outer.bytes = []
  · rw [if_pos (.inl empty), empty, components_of_empty empty, List.nil_append, List.nil_append,
      components_of_relative relative]
  · by_cases ends : outer.bytes.getLast? = some slash
    · obtain ⟨front, shape⟩ := List.getLast?_eq_some_iff.1 ends
      have parts := components_append_slash front inner.bytes
      rw [if_pos (.inr ends), shape, List.append_assoc, List.singleton_append, parts, ← shape]
    · rw [if_neg (by simp [empty, ends]), components_append_slash, components_append_end empty]

end Path

end LocaleWatch
