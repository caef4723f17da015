import Mathlib.Data.List.Forall2
import LocaleWatch.Proofs.Files.TextPaths

/-!
# Keys of paths

The key of a path shows its components one by one, and what was shown is read back: the names that
stand between the separators of a key are the components as they are shown. So two paths have one
key exactly if their components are shown alike, and a key is the key of the path that it writes.

A component is shown as it is, unless its bytes are no text. What is malformed in a name is shown as
U+FFFD, whatever its bytes are, so names that differ there are shown alike. Among paths that are
text this does not happen, nor among keys that do not show U+FFFD: there, paths have one key exactly
if they have the same components.

## Main results

* `Path.components_ofText_key` — the components of a key are those that it shows.
* `Path.key_eq_iff` — which paths have one key.
* `Path.key_ofText_key` — a key is its own key.
* `Path.key_eq_iff_of_text`, `Path.key_eq_iff_of_clear` — where keys tell all paths apart.
-/

namespace LocaleWatch

open Text

namespace Path

variable {path first second : Path}

/-! ## Components as they are shown -/

/-- The component that is shown for a component: a name with malformed bytes has U+FFFD in their
place. -/
def Component.shown : Component → Component
  | .root => .root
  | .up => .up
  | .name bytes => .name (Text.bytes (lossyText bytes))

/-- Components are shown alike: they lead to the root both, or both to the directory above, or to
names that read as one text. -/
def Component.Alike : Component → Component → Prop
  | .root, .root | .up, .up => True
  | .name first, .name second => lossyText first = lossyText second
  | _, _ => False

namespace Component

theorem alike_iff {first second : Component} :
    first.Alike second ↔ first.shown = second.shown := by
  cases first with
  | root => cases second <;> simp [Alike, shown]
  | up => cases second <;> simp [Alike, shown]
  | name bytes =>
    cases second with
    | root | up => simp [Alike, shown]
    | name other =>
      refine ⟨fun same => congrArg (name ∘ Text.bytes) same, fun same => ?_⟩
      have read := congrArg lossyText (name.inj same)
      rwa [lossyText_bytes, lossyText_bytes] at read

instance (first second : Component) : Decidable (first.Alike second) :=
  decidable_of_iff _ alike_iff.symm

@[simp] theorem text_shown (component : Component) : component.shown.text = component.text := by
  cases component with
  | root | up => rfl
  | name bytes => exact lossyText_bytes _

/-- What a name stands for is shown as it is. -/
@[simp] theorem shown_ofName (name : String) : (ofName name).shown = ofName name := by
  unfold ofName
  split
  · rfl
  · rw [shown, lossyText_bytes]

/-- So is a component that shows no U+FFFD. -/
theorem shown_of_clear {component : Component} (clear : '\uFFFD' ∉ component.text.toList) :
    component.shown = component := by
  cases component with
  | root | up => rfl
  | name bytes => exact congrArg name (bytes_lossyText clear)

end Component

/-- Only the first component may be the root. -/
theorem components_eq (path : Path) : ∃ inner, (∀ component ∈ inner, component ≠ .root) ∧
    path.components = (if path.isAbsolute then [.root] else []) ++ inner := by
  refine ⟨(pieces path.bytes).filterMap component?, fun component mem => ?_, rfl⟩
  obtain ⟨piece, -, found⟩ := List.mem_filterMap.1 mem
  unfold component? at found
  rintro rfl
  split at found
  · cases found
  · split at found
    · cases found
    · cases found

/-- Every other component is shown as a name that stands for what is shown. -/
theorem isPart_text_of_ne_root {component : Component} (mem : component ∈ path.components)
    (ne : component ≠ .root) :
    IsPart component.text ∧ Component.ofName component.text = component.shown := by
  cases component with
  | root => contradiction
  | up => exact ⟨⟨by decide, by decide, by decide⟩, rfl⟩
  | name bytes =>
    obtain ⟨isPart, notUp⟩ := isPart_text mem rfl
    exact ⟨isPart, Component.ofName_of_ne notUp⟩

/-! ## What is read back -/

/-- The components of a key are those that it shows. -/
theorem components_ofText_key (path : Path) :
    (ofText path.key).components = path.components.map Component.shown := by
  obtain ⟨inner, notRoot, shape⟩ := components_eq path
  have inPath : ∀ component ∈ inner, component ∈ path.components := fun component mem =>
    shape ▸ List.mem_append_right _ mem
  have proper : ∀ part ∈ inner.map Component.text, IsPart part := by
    intro part mem
    obtain ⟨component, isIn, rfl⟩ := List.mem_map.1 mem
    exact (isPart_text_of_ne_root (inPath component isIn) (notRoot component isIn)).1
  have read : (inner.map Component.text).map Component.ofName = inner.map Component.shown := by
    rw [List.map_map]
    exact List.map_congr_left fun component isIn =>
      (isPart_text_of_ne_root (inPath component isIn) (notRoot component isIn)).2
  have unrooted : key path = "/".intercalate
      ((if path.isAbsolute then ["/"] else []) ++ inner.map Component.text) := by
    rw [key, shape, List.map_append]
    congr 2
    split <;> rfl
  rw [unrooted, shape, List.map_append]
  cases absolute : path.isAbsolute with
  | false =>
    simp only [Bool.false_eq_true, if_false, List.nil_append, List.map_nil]
    rw [components_ofText, if_neg (head?_intercalate proper), names_intercalate proper, read]
    rfl
  | true =>
    simp only [if_true, List.map_cons, List.map_nil, List.singleton_append]
    cases inner with
    | nil => decide
    | cons component more =>
      have separated : "/".intercalate ("/" :: (component :: more).map Component.text) =
          "/" ++ "/" ++ "/".intercalate ((component :: more).map Component.text) :=
        String.intercalate_cons_of_ne_nil (by simp)
      have lead : ("/".intercalate ("/" :: (component :: more).map Component.text)).toList.head? =
          some '/' := by
        rw [separated]
        simp
      rw [components_ofText, if_pos lead, separated, names_append_separator,
        names_intercalate proper, List.map_append, read]
      rfl

/-- So the key of a path is settled by its components as they are shown. -/
theorem key_eq_of_shown
    (same : first.components.map Component.shown = second.components.map Component.shown) :
    first.key = second.key := by
  have texts (path : Path) : path.components.map Component.text =
      (path.components.map Component.shown).map Component.text := by
    rw [List.map_map]
    exact List.map_congr_left fun component _ => (Component.text_shown component).symm
  rw [key, key, texts first, texts second, same]

/-- Paths have one key exactly if their components are shown alike. -/
theorem key_eq_iff :
    first.key = second.key ↔
      List.Forall₂ Component.Alike first.components second.components := by
  have alike : List.Forall₂ Component.Alike first.components second.components ↔
      first.components.map Component.shown = second.components.map Component.shown := by
    have relation : Component.Alike = fun here there => here.shown = there.shown :=
      funext₂ fun _ _ => propext Component.alike_iff
    rw [← List.forall₂_eq_eq_eq, List.forall₂_map_left_iff, List.forall₂_map_right_iff, relation]
  rw [alike]
  refine ⟨fun same => ?_, key_eq_of_shown⟩
  rw [← components_ofText_key, ← components_ofText_key, same]

/-- A key is the key of the path that it writes. -/
theorem key_ofText_key (path : Path) : (ofText path.key).key = path.key := by
  refine key_eq_of_shown ?_
  rw [components_ofText_key, List.map_map]
  refine List.map_congr_left fun component _ => ?_
  rw [Function.comp_apply, ← Component.alike_iff]
  cases component with
  | root | up => trivial
  | name bytes => exact lossyText_bytes _

/-! ## Where keys tell all paths apart -/

/-- Paths whose components are all shown as they are have one key exactly if they have the same
components. -/
theorem key_eq_iff_of_shown (here : ∀ component ∈ first.components, component.shown = component)
    (there : ∀ component ∈ second.components, component.shown = component) :
    first.key = second.key ↔ first.components = second.components := by
  have still {path : Path} (all : ∀ component ∈ path.components, component.shown = component) :
      (ofText path.key).components = path.components := by
    rw [components_ofText_key, List.map_congr_left all, List.map_id']
  refine ⟨fun same => ?_, fun same => key_eq_of_shown (by rw [same])⟩
  rw [← still here, ← still there, same]

/-- The components of a text are shown as they are. -/
theorem shown_of_text {text : String} (isText : path.text? = some text) {component : Component}
    (mem : component ∈ path.components) : component.shown = component := by
  have isWritten : path = ofText text := congrArg Path.mk (text?_eq_some_iff.1 isText)
  rw [isWritten, components_ofText] at mem
  rcases List.mem_append.1 mem with front | inner
  · split at front
    · rw [List.mem_singleton.1 front]
      rfl
    · cases front
  · obtain ⟨name, -, rfl⟩ := List.mem_map.1 inner
    exact Component.shown_ofName name

/-- Paths that are text have one key exactly if they have the same components. -/
theorem key_eq_iff_of_text {here there : String} (isText : first.text? = some here)
    (isTextToo : second.text? = some there) :
    first.key = second.key ↔ first.components = second.components :=
  key_eq_iff_of_shown (fun _ => shown_of_text isText) fun _ => shown_of_text isTextToo

/-- What a part shows is shown by the whole. -/
private theorem mem_intercalate_of_mem {parts : List String} {part : String} (isIn : part ∈ parts)
    {c : Char} (mem : c ∈ part.toList) : c ∈ ("/".intercalate parts).toList := by
  induction parts with
  | nil => cases isIn
  | cons first rest ih =>
    cases rest with
    | nil =>
      cases List.mem_singleton.1 isIn
      simpa using mem
    | cons next more =>
      rw [String.intercalate_cons_cons, String.toList_append, String.toList_append]
      rcases List.mem_cons.1 isIn with rfl | later
      · exact List.mem_append_left _ (List.mem_append_left _ mem)
      · exact List.mem_append_right _ (ih later)

/-- A key that shows no U+FFFD is the key of paths with the same components only. -/
theorem key_eq_iff_of_clear (clear : '\uFFFD' ∉ first.key.toList) :
    first.key = second.key ↔ first.components = second.components := by
  have all {path : Path} (clear : '\uFFFD' ∉ path.key.toList) (component : Component)
      (mem : component ∈ path.components) : component.shown = component :=
    Component.shown_of_clear fun shows =>
      clear (mem_intercalate_of_mem (List.mem_map_of_mem mem) shows)
  refine ⟨fun same => ?_, fun same => key_eq_of_shown (by rw [same])⟩
  exact (key_eq_iff_of_shown (all clear) (all (same ▸ clear))).1 same

end Path

end LocaleWatch
