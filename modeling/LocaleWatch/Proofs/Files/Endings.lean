import LocaleWatch.Path
import Mathlib.Data.List.Basic
import Mathlib.Data.List.Induction
import Mathlib.Tactic.ByContra

/-!
# The end of a path

The last component of a path decides what file it names, in which directory it lies, and what
its path is with another extension. Separators and `.` components at the end mean nothing, so
they are skipped before the end is looked at.

## Main results

* `Path.exists_ending` — a path is what stands before its last component, and that component.
* `Path.components_parent` — the directory of a path.
* `Path.components_withExtension` — another extension is another name in the same directory.
* `Path.renamed_ne` — no name changes into itself by an extension with a full stop in it.
-/

namespace LocaleWatch

namespace Path

/-- What may stand before the last piece of a path: nothing, or something that a separator
ends. -/
def Leads (front : List UInt8) : Prop := front = [] ∨ ∃ outer, front = outer ++ [slash]

/-- A path ends with what follows its last separator. -/
theorem exists_lastPiece (bytes : List UInt8) :
    ∃ front last, bytes = front ++ last ∧ Leads front ∧ slash ∉ last := by
  induction bytes using List.reverseRecOn with
  | nil => exact ⟨[], [], rfl, .inl rfl, List.not_mem_nil⟩
  | append_singleton bytes b ih =>
    by_cases ends : b = slash
    · exact ⟨bytes ++ [b], [], by simp, .inr ⟨bytes, by rw [ends]⟩, List.not_mem_nil⟩
    · obtain ⟨front, last, rfl, leads, inside⟩ := ih
      have inside : slash ∉ last ++ [b] := by simp [inside, Ne.symm ends]
      exact ⟨front, last ++ [b], List.append_assoc _ _ _, leads, inside⟩

/-- A path that does not end with a separator ends with a piece. -/
theorem exists_lastPiece_of_getLast? {bytes : List UInt8} {b : UInt8}
    (ends : bytes.getLast? = some b) (inner : b ≠ slash) :
    ∃ front last, bytes = front ++ last ∧ Leads front ∧ slash ∉ last ∧
      last.getLast? = some b := by
  obtain ⟨front, last, shape, leads, inside⟩ := exists_lastPiece bytes
  have filled : last ≠ [] := by
    rintro rfl
    rw [shape, List.append_nil] at ends
    rcases leads with rfl | ⟨outer, rfl⟩
    · contradiction
    · rw [List.getLast?_concat] at ends
      exact inner (Option.some.inj ends).symm
  refine ⟨front, last, shape, leads, inside, ?_⟩
  rwa [shape, List.getLast?_append_of_ne_nil _ filled] at ends

/-- The last component of a path is that of its last piece. -/
theorem components_lastPiece {front last : List UInt8} (leads : Leads front)
    (inside : slash ∉ last) :
    components ⟨front ++ last⟩ = components ⟨front⟩ ++ (component? last).toList := by
  have single : (pieces last).filterMap component? = (component? last).toList := by
    rw [pieces_of_not_mem inside]
    cases h : component? last <;> simp [h]
  rcases leads with rfl | ⟨outer, rfl⟩
  · have relative : (⟨[] ++ last⟩ : Path).isAbsolute = false := by
      cases last with
      | nil => rfl
      | cons b rest => simpa [isAbsolute, eq_comm] using List.ne_of_not_mem_cons inside
    have nothing : components ⟨[]⟩ = [] := rfl
    rw [nothing, components_of_relative relative]
    exact single
  · rw [List.append_assoc, List.singleton_append, components_append_slash, single]

/-- The component of a piece has its bytes. -/
theorem component?_bytes {piece : List UInt8} {component : Component}
    (found : component? piece = some component) : component.bytes = piece := by
  unfold component? at found
  split at found
  · contradiction
  · split at found
    · next up =>
      cases found
      exact up.symm
    · cases found
      rfl

/-! ## What is skipped -/

/-- The separators and `.` components at the end mean nothing. -/
theorem components_trimmed (bytes : List UInt8) :
    components ⟨(trimmed bytes).reverse⟩ = components ⟨bytes.reverse⟩ := by
  induction bytes using trimmed.induct with
  | case1 => rfl
  | case2 b => rfl
  | case3 c rest ih =>
    have filled : (c :: rest).reverse ≠ [] := by simp
    have shape : (slash :: c :: rest).reverse = (c :: rest).reverse ++ [slash] := List.reverse_cons
    rw [trimmed, if_pos rfl, ih, shape, components_append_end filled]
  | case4 b c rest other dot ih =>
    obtain ⟨rfl, rfl⟩ := dot
    have shape : (fullStop :: slash :: rest).reverse = rest.reverse ++ slash :: [fullStop] := by
      simp
    have before : (slash :: rest).reverse = rest.reverse ++ [slash] := List.reverse_cons
    rw [trimmed, if_neg other, if_pos ⟨rfl, rfl⟩, ih, shape, before,
      components_append_slash rest.reverse [fullStop]]
    simp [pieces, component?, other]
  | case5 b c rest other noDot => rw [trimmed, if_neg other, if_neg noDot]

/-- Nothing more can be skipped, except in a path of one byte. -/
theorem trimmed_cases (bytes : List UInt8) :
    (trimmed bytes).length ≤ 1 ∨ ∃ b c rest, trimmed bytes = b :: c :: rest ∧ b ≠ slash ∧
      ¬(b = fullStop ∧ c = slash) := by
  induction bytes using trimmed.induct with
  | case1 => exact .inl (Nat.zero_le 1)
  | case2 b => exact .inl (Nat.le_refl 1)
  | case3 c rest ih => rwa [trimmed, if_pos rfl]
  | case4 b c rest other dot ih => rwa [trimmed, if_neg other, if_pos dot]
  | case5 b c rest other noDot =>
    rw [trimmed, if_neg other, if_neg noDot]
    exact .inr ⟨b, c, rest, rfl, other, noDot⟩

/-- A path is what stands before its last component, and that component. -/
theorem exists_ending {path : Path} {component : Component}
    (ends : path.components.getLast? = some component) (inner : component ≠ .root) :
    ∃ front last, (trimmed path.bytes.reverse).reverse = front ++ last ∧ Leads front ∧
      slash ∉ last ∧ component? last = some component ∧
      path.components = components ⟨front⟩ ++ [component] := by
  obtain ⟨front, last, shape, leads, inside⟩ :=
    exists_lastPiece (trimmed path.bytes.reverse).reverse
  have same : path.components = components ⟨front⟩ ++ (component? last).toList := by
    rw [← components_lastPiece leads inside, ← shape, components_trimmed, List.reverse_reverse]
  have normal := trimmed_cases path.bytes.reverse
  have reversed : trimmed path.bytes.reverse = (front ++ last).reverse := by
    rw [← shape, List.reverse_reverse]
  rw [reversed] at normal
  refine ⟨front, last, shape, leads, inside, ?_⟩
  cases named : component? last with
  | some found =>
    rw [named] at same
    have last : found = component := by simpa [same] using ends
    exact ⟨congrArg some last, by rw [same, last]; rfl⟩
  | none =>
    rw [named, Option.toList_none, List.append_nil] at same
    have void : last = [] ∨ last = [fullStop] := by
      by_contra filled
      rw [component?, if_neg filled] at named
      split at named <;> contradiction
    rcases leads with rfl | ⟨outer, rfl⟩
    · rw [same] at ends
      contradiction
    · rcases void with rfl | rfl
      · rcases normal with short | ⟨b, c, rest, shape, other, -⟩
        · have alone : outer = [] := by simpa using short
          rw [same, alone] at ends
          exact absurd (Option.some.inj ends).symm inner
        · simp [Ne.symm other] at shape
      · rcases normal with short | ⟨b, c, rest, shape, -, noDot⟩
        · simp at short
        · simp at shape
          exact absurd ⟨shape.1.symm, shape.2.1.symm⟩ noDot

/-! ## Directories -/

/-- The directory of a path has all its components but the last. -/
theorem components_parent {path : Path} {component : Component}
    (ends : path.components.getLast? = some component) (inner : component ≠ .root) :
    ∃ directory, path.parent? = some directory ∧
      path.components = directory.components ++ [component] := by
  obtain ⟨front, last, shape, leads, inside, found, same⟩ := exists_ending ends inner
  have cut : (trimmed path.bytes.reverse).drop component.bytes.length = front.reverse := by
    rw [← List.reverse_reverse (trimmed path.bytes.reverse), shape, component?_bytes found,
      List.reverse_append, ← List.length_reverse, List.drop_left]
  refine ⟨⟨(trimmed front.reverse).reverse⟩, ?_, ?_⟩
  · rw [parent?, ends, ← cut]
    cases component with
    | root => contradiction
    | up => rfl
    | name bytes => rfl
  · rw [components_trimmed, List.reverse_reverse, same]

/-- A file name is the last component. -/
theorem fileName?_eq_some {path : Path} {name : List UInt8} :
    path.fileName? = some name ↔ path.components.getLast? = some (.name name) := by
  unfold fileName?
  split <;> simp_all

/-! ## Extensions -/

theorem stemLength_le (name : List UInt8) : stemLength name ≤ name.length := by
  unfold stemLength
  simp only
  split
  · omega
  · exact Nat.le_refl _

/-- The last full stop of a name begins its extension. -/
theorem stemLength_append {stem extension : List UInt8} (filled : stem ≠ [])
    (single : fullStop ∉ extension) : stemLength (stem ++ fullStop :: extension) = stem.length := by
  have tail : (stem ++ fullStop :: extension).reverse.takeWhile (· ≠ fullStop) =
      extension.reverse := by
    have stop : List.takeWhile (· ≠ fullStop) (fullStop :: stem.reverse) = [] := by simp
    have free : ∀ b ∈ extension.reverse, decide (b ≠ fullStop) = true := by
      intro b mem
      have other : b ≠ fullStop := by
        rintro rfl
        exact single (List.mem_reverse.1 mem)
      simpa using other
    rw [List.reverse_append, List.reverse_cons, List.append_assoc, List.singleton_append,
      List.takeWhile_append_of_pos free, stop, List.append_nil]
  have : 0 < stem.length := List.length_pos_iff.2 filled
  simp only [stemLength, tail, List.length_reverse, List.length_append, List.length_cons]
  rw [if_pos] <;> omega

/-- The name that a file has with another extension. -/
def renamed (name extension : List UInt8) : List UInt8 :=
  name.take (stemLength name) ++ fullStop :: extension

/-- An extension that holds a full stop is the extension of no name. -/
theorem renamed_ne {name first last : List UInt8} (single : fullStop ∉ last) :
    renamed name (first ++ fullStop :: last) ≠ name := by
  intro same
  have shape : name = (name.take (stemLength name) ++ fullStop :: first) ++ fullStop :: last := by
    rw [List.append_assoc, List.cons_append]
    exact same.symm
  have filled : name.take (stemLength name) ++ fullStop :: first ≠ [] := by simp
  have stem := stemLength_append filled single
  rw [← shape, List.length_append, List.length_take, List.length_cons] at stem
  have := stemLength_le name
  omega

/-- Another extension changes the end of the file name. -/
theorem withExtension_eq {path : Path} {name : List UInt8} (extension : String)
    (named : path.fileName? = some name) :
    ∃ front, path.components = components ⟨front⟩ ++ [.name name] ∧ Leads front ∧
      slash ∉ name ∧
      path.withExtension extension = ⟨front ++ renamed name (Text.bytes extension)⟩ := by
  obtain ⟨front, last, shape, leads, inside, found, same⟩ :=
    exists_ending (fileName?_eq_some.1 named) nofun
  obtain rfl : name = last := component?_bytes found
  refine ⟨front, same, leads, inside, ?_⟩
  have cut : (front ++ name).length - (name.length - stemLength name) =
      front.length + stemLength name := by
    have := stemLength_le name
    simp only [List.length_append]
    omega
  simp only [withExtension, named, shape, cut, List.take_length_add_append, renamed,
    List.append_assoc]

/-- Another extension is another name in the same directory. -/
theorem components_withExtension {path : Path} {name : List UInt8} {extension : String}
    (named : path.fileName? = some name) (inside : slash ∉ Text.bytes extension)
    (long : 2 ≤ (Text.bytes extension).length) :
    (path.withExtension extension).components =
      path.components.dropLast ++ [.name (renamed name (Text.bytes extension))] := by
  obtain ⟨front, same, leads, noSlash, shape⟩ := withExtension_eq extension named
  have whole : slash ∉ renamed name (Text.bytes extension) := by
    have stem : slash ∉ name.take (stemLength name) := fun mem => noSlash (List.mem_of_mem_take mem)
    have stop : slash ≠ fullStop := by decide
    simp [renamed, stem, stop, inside]
  have long : 2 < (renamed name (Text.bytes extension)).length := by
    simp only [renamed, List.length_append, List.length_cons]
    omega
  have found : component? (renamed name (Text.bytes extension)) =
      some (.name (renamed name (Text.bytes extension))) := by
    rw [component?, if_neg, if_neg]
    · intro up
      simp [up] at long
    · rintro (void | void) <;> simp [void] at long
  rw [shape, components_lastPiece leads whole, found, same, List.dropLast_concat]
  rfl

end Path

end LocaleWatch
