import LinkTags.Path.Basic

/-!
# Names and locations

A directory lists its entries by name, and names are ordered by their bytes. A
location is the sequence of names from a directory up to the root, the innermost
name first, so that the directory above is the tail.
-/

namespace LinkTags

/-- A component that a directory can hold: at most 255 bytes, none of them zero. -/
structure Name extends Component where
  short : bytes.length ≤ 255
  nonzero : (0 : UInt8) ∉ bytes
  deriving DecidableEq

namespace Name

theorem ext_bytes {a b : Name} (h : a.bytes = b.bytes) : a = b := by
  obtain ⟨⟨_, _⟩, _, _⟩ := a
  obtain ⟨⟨_, _⟩, _, _⟩ := b
  cases h
  rfl

/-- Names are ordered by their bytes, an initial part before the whole. -/
instance : LT Name := ⟨fun a b => a.bytes < b.bytes⟩

instance : DecidableLT Name := fun a b => inferInstanceAs (Decidable (a.bytes < b.bytes))

instance : Std.Asymm (α := Name) (· < ·) :=
  ⟨fun a b (hab : a.bytes < b.bytes) (hba : b.bytes < a.bytes) => List.lt_asymm hab hba⟩

instance : Trans (α := Name) (β := Name) (γ := Name) (· < ·) (· < ·) (· < ·) :=
  ⟨fun {a b c} (hab : a.bytes < b.bytes) (hbc : b.bytes < c.bytes) =>
    (List.lt_trans hab hbc : a.bytes < c.bytes)⟩

instance : Std.Trichotomous (α := Name) (· < ·) :=
  ⟨fun a b hab hba =>
    ext_bytes (Std.Trichotomous.trichotomous (r := (· < ·)) a.bytes b.bytes hab hba)⟩

/-- The name that a component is, unless it is too long or holds a zero byte. -/
def ofComponent? (component : Component) : Option Name :=
  if h : component.bytes.length ≤ 255 ∧ (0 : UInt8) ∉ component.bytes then
    some ⟨component, h.1, h.2⟩
  else none

@[simp] theorem ofComponent?_toComponent (name : Name) :
    ofComponent? name.toComponent = some name := by
  simp [ofComponent?, name.short, name.nonzero]

end Name

/-- A place in the tree, as the names from it up to the root; the root has none. -/
abbrev Location := List Name

end LinkTags
