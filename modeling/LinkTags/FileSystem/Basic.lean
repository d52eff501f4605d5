import LinkTags.FileSystem.Contents
import LinkTags.FileSystem.Error

/-!
# File systems

A file system is what its root holds. What the operations do is said by `node?`, what
is at a location, and two file systems with the same nodes everywhere are equal
(`FileSystem.ext_node?`).

## Implementation notes

A directory has a single entry, so its location identifies it, and no inode is
kept for it. Every other entry carries its inode whole: entries with equal inodes
are links to one file. The root has no entry.

All of the tree is on one device. There are no owners and no permissions, so nothing is
refused to anyone, and no limits on how many links a file has, how many entries a directory
has, or how much space there is. What files hold and when they were changed is not kept. A
tree is changed by one operation after the other and by nothing else.
-/

namespace LinkTags

/-- A tree with its names in order. -/
structure FileSystem where
  root : Contents
  sorted : root.Sorted
  deriving DecidableEq

namespace FileSystem

/-- The file system with nothing but its root. -/
def empty : FileSystem := ⟨.nil, trivial⟩

instance : Inhabited FileSystem := ⟨empty⟩

/-- The item at a location, the root being a directory. -/
def item? (files : FileSystem) (location : Location) : Option Item :=
  files.root.reach? location.reverse

/-- The node at a location. -/
def node? (files : FileSystem) (location : Location) : Option Node :=
  (files.item? location).map Item.node

/-- What the directory at a location holds. -/
def inside? (files : FileSystem) (location : Location) : Option Contents :=
  match files.item? location with
  | some (.directory inside) => some inside
  | _ => none

/-- There is a directory at the location. -/
def IsDirectory (files : FileSystem) (location : Location) : Prop :=
  files.node? location = some .directory

instance (files : FileSystem) (location : Location) : Decidable (files.IsDirectory location) :=
  inferInstanceAs (Decidable (_ = _))

/-- What the directory at a location holds, nothing if there is none. -/
def contentsIn (files : FileSystem) (location : Location) : Contents :=
  match files.inside? location with
  | some inside => inside
  | none => .nil

/-! ## Reading through `node?` -/

theorem node?_eq (files : FileSystem) (location : Location) :
    files.node? location = files.root.node? location.reverse := rfl

@[simp] theorem node?_nil (files : FileSystem) : files.node? [] = some .directory := rfl

theorem inside?_eq_some_iff {files : FileSystem} {location : Location} {inside : Contents} :
    files.inside? location = some inside ↔
      files.root.reach? location.reverse = some (.directory inside) := by
  unfold inside? item?
  split <;> simp_all

theorem sorted_of_inside? {files : FileSystem} {location : Location} {inside : Contents}
    (h : files.inside? location = some inside) : inside.Sorted :=
  Contents.sorted_of_reach? files.sorted (inside?_eq_some_iff.1 h)

theorem isDirectory_iff_exists_inside? {files : FileSystem} {location : Location} :
    files.IsDirectory location ↔ ∃ inside, files.inside? location = some inside := by
  unfold IsDirectory node? inside?
  cases files.item? location with
  | none => simp
  | some item => cases item <;> simp [Item.node]

theorem item?_cons (files : FileSystem) (name : Name) (above : Location) :
    files.item? (name :: above) =
      match files.inside? above with
      | some inside => inside.find? name
      | none => none := by
  unfold inside?
  rw [item?, List.reverse_cons, Contents.reach?_append _ _ _ (by simp), ← item?]
  split <;> simp_all [Contents.reach?_singleton]

/-- What is at a location is what the name leads to in the directory above. -/
theorem node?_cons (files : FileSystem) (name : Name) (above : Location) :
    files.node? (name :: above) =
      match files.inside? above with
      | some inside => (inside.find? name).map Item.node
      | none => none := by
  rw [node?, item?_cons]
  split <;> rfl

/-- The entries of a directory are the nodes one name below it. -/
theorem mem_entries_contentsIn {files : FileSystem} {location : Location} {entry : Entry} :
    entry ∈ (files.contentsIn location).entries ↔
      files.node? (entry.name :: location) = some entry.node := by
  rw [node?_cons, contentsIn]
  cases hinside : files.inside? location with
  | none => simp [Contents.entries]
  | some inside => exact Contents.mem_entries_iff (sorted_of_inside? hinside)

/-- What is in a directory of a file system is there, and the directory above it too. -/
theorem isDirectory_of_node? {files : FileSystem} {name : Name} {above : Location} {node : Node}
    (h : files.node? (name :: above) = some node) : files.IsDirectory above := by
  rw [node?_cons] at h
  rw [isDirectory_iff_exists_inside?]
  split at h
  · exact ⟨_, ‹_›⟩
  · contradiction

theorem isDirectory_tail {files : FileSystem} {location : Location}
    (h : files.IsDirectory location) : files.IsDirectory location.tail := by
  cases location with
  | nil => exact h
  | cons name above => exact isDirectory_of_node? h

/-- Something below a location makes the location a directory. -/
theorem isDirectory_of_suffix {files : FileSystem} {location other : Location} {node : Node}
    (h : files.node? other = some node) (hsuffix : location <:+ other) (hne : location ≠ other) :
    files.IsDirectory location := by
  induction other generalizing node with
  | nil => exact absurd (List.suffix_nil.1 hsuffix) hne
  | cons name above ih =>
      rcases List.suffix_cons_iff.1 hsuffix with hsame | habove
      · exact absurd hsame hne
      · have hdirectory := isDirectory_of_node? h
        by_cases hsame : location = above
        · exact hsame ▸ hdirectory
        · exact ih hdirectory habove hsame

/-- File systems with the same node at every location are equal. -/
theorem ext_node? {a b : FileSystem} (h : ∀ location, a.node? location = b.node? location) :
    a = b := by
  have hroot : a.root = b.root := Contents.ext_node? a.sorted b.sorted fun names => by
    have hnames := h names.reverse
    simpa [node?_eq] using hnames
  cases a
  cases b
  simp_all

/-! ## Changes -/

/-- Put an item under a free name of a directory. -/
def put (files : FileSystem) (directory : Location) (name : Name) (item : Item)
    (hitem : item.Sorted) : Except FileError FileSystem :=
  match hinside : files.inside? directory with
  | none => .error .notFound
  | some inside =>
      match hfree : inside.find? name with
      | some _ => .error .alreadyExists
      | none =>
          .ok {
            root := files.root.changeAt (Contents.insert name item) directory.reverse
            sorted := Contents.sorted_changeAt files.sorted fun other hreach hsorted => by
              rw [inside?_eq_some_iff.1 hinside] at hreach
              cases hreach
              exact Contents.sorted_insert hsorted hitem hfree }

/-- Add a node under a free name of a directory, a directory being empty. -/
def add (files : FileSystem) (directory : Location) (name : Name) (node : Node) :
    Except FileError FileSystem :=
  files.put directory name node.item node.sorted_item

/-- Remove a name from a directory with everything at and below it. -/
def eraseTree (files : FileSystem) (name : Name) (above : Location) : FileSystem where
  root := files.root.changeAt (Contents.erase name) above.reverse
  sorted := Contents.sorted_changeAt files.sorted fun _ _ => Contents.sorted_erase name

/-- Remove the entry at a location, unless it is a directory. -/
def erase (files : FileSystem) (location : Location) : FileSystem :=
  match location with
  | [] => files
  | name :: above =>
      if files.IsDirectory (name :: above) then files else files.eraseTree name above

/-- A number that no inode of the file system has. -/
def freshNumber (files : FileSystem) : Nat :=
  files.root.freshNumber

/-! ## What the changes do to `node?` -/

theorem node?_add {files after : FileSystem} {directory : Location} {name : Name} {node : Node}
    (h : files.add directory name node = .ok after) (location : Location) :
    after.node? location = if location = name :: directory then some node
      else files.node? location := by
  unfold add put at h
  split at h
  · contradiction
  next inside hinside =>
    split at h
    · contradiction
    next hfree =>
      cases h
      have hreach := inside?_eq_some_iff.1 hinside
      simp only [node?_eq, Contents.node?_changeAt_insert node hreach hfree]
      simp [← List.reverse_cons]

/-- Adding succeeds exactly under a free name of a directory. -/
theorem add_eq_ok_iff {files : FileSystem} {directory : Location} {name : Name} {node : Node} :
    (∃ after, files.add directory name node = .ok after) ↔
      files.IsDirectory directory ∧ files.node? (name :: directory) = none := by
  rw [isDirectory_iff_exists_inside?, node?_cons]
  unfold add put
  split
  next hnone => simp [hnone]
  next inside hinside =>
    simp only [hinside]
    split <;> simp_all

theorem node?_eraseTree (files : FileSystem) (name : Name) (above other : Location) :
    (files.eraseTree name above).node? other =
      if name :: above <:+ other then none else files.node? other := by
  rw [node?_eq, node?_eq, eraseTree, Contents.node?_changeAt_erase files.sorted,
    ← List.reverse_cons]
  simp only [List.reverse_prefix]

theorem node?_erase (files : FileSystem) (location other : Location) :
    (files.erase location).node? other =
      if other = location ∧ files.node? other ≠ some .directory then none
      else files.node? other := by
  unfold erase
  split
  · grind [node?_nil]
  next name above =>
    split
    next hdirectory =>
      unfold IsDirectory at hdirectory
      grind
    next hfile =>
      rw [node?_eraseTree]
      by_cases hsame : name :: above = other
      · subst hsame
        simp [show files.node? (name :: above) ≠ some .directory from hfile]
      · have hother : ¬other = name :: above := fun h => hsame h.symm
        simp only [hother, false_and, if_false]
        split
        next hbelow =>
          cases hnode : files.node? other with
          | none => rfl
          | some node => exact absurd (isDirectory_of_suffix hnode hbelow hsame) hfile
        next => rfl

theorem isDirectory_erase {files : FileSystem} {location other : Location} :
    (files.erase location).IsDirectory other ↔ files.IsDirectory other := by
  unfold IsDirectory
  rw [node?_erase]
  split
  next h => simp [h.2]
  next => rfl

theorem isDirectory_of_add {files after : FileSystem} {directory other : Location} {name : Name}
    {node : Node} (h : files.add directory name node = .ok after)
    (hother : files.IsDirectory other) : after.IsDirectory other := by
  unfold IsDirectory at hother ⊢
  rw [node?_add h]
  split
  next hsame =>
    have hfree := (add_eq_ok_iff.1 ⟨after, h⟩).2
    rw [← hsame, hother] at hfree
    contradiction
  next => exact hother

end FileSystem

end LinkTags
