import LinkTags.FileSystem.Name

/-!
# Contents of directories

What is in a directory, down to the last file below it: a finite tree, in which each
name leads to a file or to the contents of another directory. The names in each
directory are in order (`Contents.Sorted`), which makes contents with the same names
leading to the same things equal (`Contents.ext_node?`). What the changes of a
directory do is said by `find?`, what a name leads to.

## Implementation notes

Contents are a single recursive type rather than a list of pairs of names and trees:
a directory holds nothing, or a file before the rest, or a directory before the rest.
All that is done to contents is then recursion on their structure.
-/

namespace LinkTags

/-- What an inode is. -/
inductive Kind where
  | regular
  | symlink (target : Path)
  | fifo
  deriving DecidableEq

/-- A file that is not a directory, apart from the names it is linked under. -/
structure Inode where
  number : Nat
  kind : Kind
  deriving DecidableEq

/-- What a directory holds, in the order of the names. -/
inductive Contents where
  | nil
  | file (name : Name) (inode : Inode) (rest : Contents)
  | directory (name : Name) (inside rest : Contents)
  deriving DecidableEq

/-- What a name in a directory leads to: a link to a file, or a directory with what it
holds. -/
inductive Item where
  | file (inode : Inode)
  | directory (inside : Contents)
  deriving DecidableEq

/-- What a name in a directory leads to, whatever a directory there may hold. -/
inductive Node where
  | directory
  | file (inode : Inode)
  deriving DecidableEq

/-- A name in a directory, and what is there. -/
structure Entry where
  name : Name
  node : Node
  deriving DecidableEq

/-- Entries in the order of their names. -/
def Entry.inOrder (listed : List Entry) : List Entry :=
  listed.mergeSort fun a b => a.name.bytes ≤ b.name.bytes

/-- An item without what it holds. -/
def Item.node : Item → Node
  | .file inode => .file inode
  | .directory _ => .directory

/-- A new item of a kind: a directory holds nothing yet. -/
def Node.item : Node → Item
  | .file inode => .file inode
  | .directory => .directory .nil

/-- An item with what it holds changed, if it is a directory. -/
def Item.mapInside (f : Contents → Contents) : Item → Item
  | .file inode => .file inode
  | .directory inside => .directory (f inside)

namespace Contents

/-- An item under a name, before the rest. -/
def cons (name : Name) (item : Item) (rest : Contents) : Contents :=
  match item with
  | .file inode => .file name inode rest
  | .directory inside => .directory name inside rest

/-- The names in a directory. -/
def names : Contents → List Name
  | .nil => []
  | .file name _ rest => name :: rest.names
  | .directory name _ rest => name :: rest.names

/-- The entries of a directory, in the order of their names. -/
def entries : Contents → List Entry
  | .nil => []
  | .file name inode rest => ⟨name, .file inode⟩ :: rest.entries
  | .directory name _ rest => ⟨name, .directory⟩ :: rest.entries

/-- The names are in order, in this directory and in all below it. -/
def Sorted : Contents → Prop
  | .nil => True
  | .file name _ rest => (∀ other ∈ rest.names, name < other) ∧ rest.Sorted
  | .directory name inside rest =>
      (∀ other ∈ rest.names, name < other) ∧ inside.Sorted ∧ rest.Sorted

/-- What a name leads to. -/
def find? (name : Name) : Contents → Option Item
  | .nil => none
  | .file first inode rest => if first = name then some (.file inode) else rest.find? name
  | .directory first inside rest =>
      if first = name then some (.directory inside) else rest.find? name

/-- Put an item under a name, before the first name that comes after it. -/
def insert (name : Name) (item : Item) : Contents → Contents
  | .nil => cons name item .nil
  | .file first inode rest =>
      if name < first then cons name item (.file first inode rest)
      else .file first inode (rest.insert name item)
  | .directory first inside rest =>
      if name < first then cons name item (.directory first inside rest)
      else .directory first inside (rest.insert name item)

/-- Remove a name with what it leads to. -/
def erase (name : Name) : Contents → Contents
  | .nil => .nil
  | .file first inode rest =>
      if first = name then rest else .file first inode (rest.erase name)
  | .directory first inside rest =>
      if first = name then rest else .directory first inside (rest.erase name)

/-- Change what the directory under a name holds. -/
def mapInside (name : Name) (f : Contents → Contents) : Contents → Contents
  | .nil => .nil
  | .file first inode rest =>
      if first = name then .file first inode rest
      else .file first inode (rest.mapInside name f)
  | .directory first inside rest =>
      if first = name then .directory first (f inside) rest
      else .directory first inside (rest.mapInside name f)

/-- What is reached by going down through names, the outermost first. -/
def reach? : Contents → List Name → Option Item
  | contents, [] => some (.directory contents)
  | contents, name :: rest =>
      match contents.find? name with
      | some (.directory inside) => inside.reach? rest
      | some (.file inode) => if rest = [] then some (.file inode) else none
      | none => none

/-- Change what the directory holds that is reached by going down through names. -/
def changeAt (f : Contents → Contents) : List Name → Contents → Contents
  | [], contents => f contents
  | name :: rest, contents => contents.mapInside name (changeAt f rest)

/-- A number that no inode in a directory, or below it, has. -/
def freshNumber : Contents → Nat
  | .nil => 0
  | .file _ inode rest => max (inode.number + 1) rest.freshNumber
  | .directory _ inside rest => max inside.freshNumber rest.freshNumber

/-! ## The first item and the rest -/

/-- Contents are empty, or an item before the rest; what holds of the rest and of what
the item holds carries over to the whole. -/
theorem induction_cons {motive : Contents → Prop} (nil : motive .nil)
    (cons : ∀ name item rest, (∀ inside, item = .directory inside → motive inside) →
      motive rest → motive (cons name item rest)) (contents : Contents) : motive contents := by
  induction contents with
  | nil => exact nil
  | file name inode rest ih => exact cons name (.file inode) rest nofun ih
  | directory name inside rest ihInside ih =>
      exact cons name (.directory inside) rest (fun _ h => by cases h; exact ihInside) ih

@[simp] theorem names_cons (name : Name) (item : Item) (rest : Contents) :
    (cons name item rest).names = name :: rest.names := by
  cases item <;> rfl

@[simp] theorem entries_cons (name : Name) (item : Item) (rest : Contents) :
    (cons name item rest).entries = ⟨name, item.node⟩ :: rest.entries := by
  cases item <;> rfl

@[simp] theorem find?_cons (name other : Name) (item : Item) (rest : Contents) :
    (cons name item rest).find? other =
      if name = other then some item else rest.find? other := by
  cases item <;> rfl

theorem insert_cons (name first : Name) (item other : Item) (rest : Contents) :
    (cons first other rest).insert name item =
      if name < first then cons name item (cons first other rest)
      else cons first other (rest.insert name item) := by
  cases other <;> rfl

theorem erase_cons (name first : Name) (item : Item) (rest : Contents) :
    (cons first item rest).erase name =
      if first = name then rest else cons first item (rest.erase name) := by
  cases item <;> rfl

theorem mapInside_cons (name first : Name) (f : Contents → Contents) (item : Item)
    (rest : Contents) :
    (cons first item rest).mapInside name f =
      if first = name then cons first (item.mapInside f) rest
      else cons first item (rest.mapInside name f) := by
  cases item <;> rfl

end Contents

/-- The names in a directory are in order, and in all below it. -/
def Item.Sorted : Item → Prop
  | .file _ => True
  | .directory inside => inside.Sorted

theorem Node.sorted_item (node : Node) : node.item.Sorted := by
  cases node <;> trivial

namespace Contents

theorem sorted_cons {name : Name} {item : Item} {rest : Contents} :
    (cons name item rest).Sorted ↔
      (∀ other ∈ rest.names, name < other) ∧ item.Sorted ∧ rest.Sorted := by
  cases item
  · exact ⟨fun h => ⟨h.1, trivial, h.2⟩, fun h => ⟨h.1, h.2.2⟩⟩
  · rfl

/-! ## Names -/

theorem find?_eq_none_iff {name : Name} {contents : Contents} :
    contents.find? name = none ↔ name ∉ contents.names := by
  induction contents using induction_cons with
  | nil => simp [find?, names]
  | cons first item rest _ ih => grind [find?_cons, names_cons]

theorem mem_names_insert {name other : Name} {item : Item} {contents : Contents} :
    other ∈ (contents.insert name item).names ↔ other = name ∨ other ∈ contents.names := by
  induction contents using induction_cons with
  | nil => simp [insert, names]
  | cons first _ rest _ ih => grind [insert_cons, names_cons]

theorem mem_names_of_mem_erase {name other : Name} {contents : Contents}
    (h : other ∈ (contents.erase name).names) : other ∈ contents.names := by
  induction contents using induction_cons with
  | nil => exact h
  | cons first item rest _ ih => grind [erase_cons, names_cons]

@[simp] theorem names_mapInside (name : Name) (f : Contents → Contents) (contents : Contents) :
    (contents.mapInside name f).names = contents.names := by
  induction contents using induction_cons with
  | nil => rfl
  | cons first item rest _ ih => grind [mapInside_cons, names_cons]

theorem map_name_entries (contents : Contents) :
    contents.entries.map Entry.name = contents.names := by
  induction contents using induction_cons with
  | nil => rfl
  | cons name item rest _ ih => rw [entries_cons, names_cons, List.map_cons, ih]

/-- A name does not come before itself. -/
theorem not_mem_of_forall_lt {name : Name} {names : List Name}
    (h : ∀ other ∈ names, name < other) : name ∉ names :=
  fun hmem => Std.Irrefl.irrefl _ (h name hmem)

/-- The first name comes only once. -/
theorem find?_rest_of_sorted {name : Name} {item : Item} {rest : Contents}
    (h : (cons name item rest).Sorted) : rest.find? name = none :=
  find?_eq_none_iff.2 (not_mem_of_forall_lt (sorted_cons.1 h).1)

theorem mem_entries_iff {contents : Contents} (hsorted : contents.Sorted) {name : Name}
    {node : Node} :
    ⟨name, node⟩ ∈ contents.entries ↔ (contents.find? name).map Item.node = some node := by
  induction contents using induction_cons with
  | nil => simp [entries, find?]
  | cons first item rest _ ih =>
      have hfirst := find?_rest_of_sorted hsorted
      have hrest := ih (sorted_cons.1 hsorted).2.2
      simp only [entries_cons, List.mem_cons, Entry.mk.injEq, find?_cons, hrest]
      grind

/-! ## What the changes do -/

theorem find?_insert {name : Name} {contents : Contents} (item : Item) (other : Name)
    (hfree : contents.find? name = none) :
    (contents.insert name item).find? other =
      if name = other then some item else contents.find? other := by
  induction contents using induction_cons with
  | nil => simp [insert]
  | cons first _ rest _ ih => grind [insert_cons, find?_cons]

theorem find?_mapInside (name other : Name) (f : Contents → Contents) (contents : Contents) :
    (contents.mapInside name f).find? other =
      if name = other then (contents.find? other).map (Item.mapInside f)
      else contents.find? other := by
  induction contents using induction_cons with
  | nil => simp [mapInside, find?]
  | cons first item rest _ ih => grind [mapInside_cons, find?_cons]

theorem find?_erase {contents : Contents} (hsorted : contents.Sorted) (name other : Name) :
    (contents.erase name).find? other =
      if name = other then none else contents.find? other := by
  induction contents using induction_cons with
  | nil => simp [erase, find?]
  | cons first item rest _ ih =>
      have hfirst := find?_rest_of_sorted hsorted
      have hrest := ih (sorted_cons.1 hsorted).2.2
      grind [erase_cons, find?_cons]

/-! ## Order -/

/-- The names in a directory are in order. -/
theorem pairwise_names {contents : Contents} (hsorted : contents.Sorted) :
    contents.names.Pairwise (· < ·) := by
  induction contents using induction_cons with
  | nil => exact .nil
  | cons name item rest _ ih =>
      obtain ⟨hbefore, _, hrest⟩ := sorted_cons.1 hsorted
      rw [names_cons]
      exact .cons hbefore (ih hrest)

/-- However a directory is listed, in the order of the names these are its entries. -/
theorem inOrder_of_perm {contents : Contents} (hsorted : contents.Sorted) {listed : List Entry}
    (h : listed.Perm contents.entries) : Entry.inOrder listed = contents.entries := by
  have hnames : contents.entries.Pairwise fun a b => a.name < b.name := by
    rw [← List.pairwise_map, map_name_entries]
    exact pairwise_names hsorted
  have hentries : contents.entries.Pairwise fun a b =>
      decide (a.name.bytes ≤ b.name.bytes) = true :=
    hnames.imp fun hlt => decide_eq_true (List.le_of_lt hlt)
  have hlisted : (Entry.inOrder listed).Pairwise fun a b =>
      decide (a.name.bytes ≤ b.name.bytes) = true := by
    apply List.pairwise_mergeSort
    · simpa using fun _ _ _ hab hbc => List.le_trans hab hbc
    · intro a b
      simpa using List.le_total a.name.bytes b.name.bytes
  have hperm : (Entry.inOrder listed).Perm contents.entries := (List.mergeSort_perm ..).trans h
  refine List.Perm.eq_of_pairwise ?_ hlisted hentries hperm
  -- Entries with the same name are the same, since a name leads to one thing.
  rintro ⟨name, node⟩ ⟨other, node'⟩ hmem hmem' hle hle'
  obtain rfl : name = other :=
    Name.ext_bytes (List.le_antisymm (of_decide_eq_true hle) (of_decide_eq_true hle'))
  have hnode := (mem_entries_iff hsorted).1 (hperm.mem_iff.1 hmem)
  rw [(mem_entries_iff hsorted).1 hmem'] at hnode
  rw [Option.some.inj hnode]

theorem sorted_of_find? {contents : Contents} {name : Name} {item : Item}
    (hsorted : contents.Sorted) (h : contents.find? name = some item) : item.Sorted := by
  induction contents using induction_cons with
  | nil => simp [find?] at h
  | cons first other rest _ ih =>
      obtain ⟨_, hitem, hrest⟩ := sorted_cons.1 hsorted
      rw [find?_cons] at h
      split at h
      · cases h
        exact hitem
      · exact ih hrest h

theorem sorted_insert {contents : Contents} {name : Name} {item : Item}
    (hsorted : contents.Sorted) (hitem : item.Sorted) (hfree : contents.find? name = none) :
    (contents.insert name item).Sorted := by
  induction contents using induction_cons with
  | nil => exact sorted_cons.2 ⟨nofun, hitem, trivial⟩
  | cons first other rest _ ih =>
      obtain ⟨hbefore, hother, hrest⟩ := sorted_cons.1 hsorted
      rw [find?_cons] at hfree
      split at hfree
      · contradiction
      next hne =>
        rw [insert_cons]
        split
        next hlt =>
          refine sorted_cons.2 ⟨fun later hmem => ?_, hitem, hsorted⟩
          rw [names_cons] at hmem
          rcases List.mem_cons.1 hmem with rfl | hmem
          · exact hlt
          · exact Trans.trans hlt (hbefore later hmem)
        next hge =>
          refine sorted_cons.2 ⟨fun later hmem => ?_, hother, ih hrest hfree⟩
          rcases mem_names_insert.1 hmem with rfl | hmem
          · exact Decidable.by_contra fun hnot =>
              hne (Std.Trichotomous.trichotomous (r := (· < ·)) _ _ hnot hge)
          · exact hbefore later hmem

theorem sorted_erase {contents : Contents} (name : Name) (hsorted : contents.Sorted) :
    (contents.erase name).Sorted := by
  induction contents using induction_cons with
  | nil => trivial
  | cons first item rest _ ih =>
      obtain ⟨hbefore, hitem, hrest⟩ := sorted_cons.1 hsorted
      rw [erase_cons]
      split
      · exact hrest
      · exact sorted_cons.2
          ⟨fun later hmem => hbefore later (mem_names_of_mem_erase hmem), hitem, ih hrest⟩

theorem sorted_mapInside {contents : Contents} {name : Name} {f : Contents → Contents}
    (hsorted : contents.Sorted)
    (hf : ∀ inside, contents.find? name = some (.directory inside) → (f inside).Sorted) :
    (contents.mapInside name f).Sorted := by
  induction contents using induction_cons with
  | nil => trivial
  | cons first item rest _ ih =>
      obtain ⟨hbefore, hitem, hrest⟩ := sorted_cons.1 hsorted
      rw [mapInside_cons]
      split
      next hsame =>
        refine sorted_cons.2 ⟨hbefore, ?_, hrest⟩
        cases item with
        | file inode => trivial
        | directory inside => exact hf inside (by simp [hsame])
      next hne =>
        refine sorted_cons.2 ⟨by simpa using hbefore, hitem, ih hrest fun inside h => ?_⟩
        exact hf inside (by simpa [hne] using h)

theorem sorted_of_reach? {contents inside : Contents} {names : List Name}
    (hsorted : contents.Sorted) (h : contents.reach? names = some (.directory inside)) :
    inside.Sorted := by
  induction names generalizing contents with
  | nil =>
      cases h
      exact hsorted
  | cons name rest ih =>
      rw [reach?] at h
      split at h
      next deeper hfind => exact ih (sorted_of_find? hsorted hfind) h
      · split at h <;> cases h
      · contradiction

theorem sorted_changeAt {contents : Contents} {names : List Name} {f : Contents → Contents}
    (hsorted : contents.Sorted)
    (hf : ∀ inside, contents.reach? names = some (.directory inside) → inside.Sorted →
      (f inside).Sorted) : (contents.changeAt f names).Sorted := by
  induction names generalizing contents with
  | nil => exact hf contents rfl hsorted
  | cons name rest ih =>
      refine sorted_mapInside hsorted fun inside h => ?_
      refine ih (sorted_of_find? hsorted h) fun deeper hreach => ?_
      exact hf deeper (by simpa [reach?, h] using hreach)

theorem reach?_append (contents : Contents) (names more : List Name) (hmore : more ≠ []) :
    contents.reach? (names ++ more) =
      match contents.reach? names with
      | some (.directory inside) => inside.reach? more
      | _ => none := by
  induction names generalizing contents with
  | nil => rfl
  | cons name rest ih =>
      rw [List.cons_append, reach?, reach?]
      split
      · exact ih _
      · simp [hmore]
      · rfl

theorem reach?_singleton (contents : Contents) (name : Name) :
    contents.reach? [name] = contents.find? name := by
  rw [reach?]
  split <;> simp_all [reach?]

/-! ## Reading through nodes -/

/-- The node that is reached by going down through names, the outermost first. -/
def node? (contents : Contents) (names : List Name) : Option Node :=
  (contents.reach? names).map Item.node

@[simp] theorem node?_nil (contents : Contents) : contents.node? [] = some .directory := rfl

theorem node?_cons (contents : Contents) (name : Name) (rest : List Name) :
    contents.node? (name :: rest) =
      match contents.find? name with
      | some (.directory inside) => inside.node? rest
      | some (.file inode) => if rest = [] then some (.file inode) else none
      | none => none := by
  unfold node?
  rw [reach?]
  split
  · rfl
  · split <;> rfl
  · rfl

theorem node?_singleton (contents : Contents) (name : Name) :
    contents.node? [name] = (contents.find? name).map Item.node := by
  rw [node?, reach?_singleton]

/-- The first names agree if each leads somewhere in both. -/
theorem first_eq {first other : Name} {item item' : Item} {rest rest' : Contents}
    (ha : (cons first item rest).Sorted) (hb : (cons other item' rest').Sorted)
    (h : ∀ name, (cons first item rest).node? [name] = (cons other item' rest').node? [name]) :
    first = other := by
  have before {x y : Name} {i j : Item} {r t : Contents} (hs : (cons y j t).Sorted)
      (h : (cons x i r).node? [x] = (cons y j t).node? [x]) : ¬x < y := by
    intro hlt
    have hout : x ∉ (cons y j t).names := by
      rw [names_cons, List.mem_cons]
      rintro (rfl | hmem)
      · exact Std.Irrefl.irrefl _ hlt
      · exact Std.Irrefl.irrefl x (Trans.trans hlt ((sorted_cons.1 hs).1 x hmem))
    rw [node?_singleton, node?_singleton, find?_eq_none_iff.2 hout] at h
    simp at h
  exact Std.Trichotomous.trichotomous (r := (· < ·)) _ _ (before hb (h first))
    (before ha (h other).symm)

/-- Sorted contents with the same nodes everywhere are the same. -/
theorem ext_node? {a b : Contents} (ha : a.Sorted) (hb : b.Sorted)
    (h : ∀ names, a.node? names = b.node? names) : a = b := by
  have hnil {first : Name} {item : Item} {rest : Contents} :
      Contents.nil.node? [first] ≠ (cons first item rest).node? [first] := by
    simp [node?_singleton, find?]
  induction a using induction_cons generalizing b with
  | nil =>
      induction b using induction_cons with
      | nil => rfl
      | cons first item rest _ _ => exact absurd (h [first]) hnil
  | cons first item rest ihInside ih =>
      induction b using induction_cons with
      | nil => exact absurd (h [first]).symm hnil
      | cons other item' rest' _ _ =>
          obtain rfl := first_eq ha hb fun name => h [name]
          have hrest := find?_rest_of_sorted ha
          have hrest' := find?_rest_of_sorted hb
          obtain ⟨_, hitem, hsorted⟩ := sorted_cons.1 ha
          obtain ⟨_, hitem', hsorted'⟩ := sorted_cons.1 hb
          have htail : rest = rest' := ih hsorted hsorted' fun names => by
            cases names with
            | nil => rfl
            | cons name more =>
                have hmore := h (name :: more)
                simp only [node?_cons, find?_cons] at hmore ⊢
                by_cases hsame : first = name
                · subst hsame
                  simp [hrest, hrest']
                · simpa [hsame] using hmore
          have hhead : item = item' := by
            have hone := h [first]
            simp only [node?_singleton, find?_cons, if_pos] at hone
            cases item with
            | file inode =>
                cases item' with
                | file inode' => simpa [Item.node] using hone
                | directory inside' => simp [Item.node] at hone
            | directory inside =>
                cases item' with
                | file inode' => simp [Item.node] at hone
                | directory inside' =>
                    rw [ihInside inside rfl hitem hitem' fun names => ?_]
                    have hmore := h (first :: names)
                    simpa [node?_cons] using hmore
          rw [htail, hhead]

theorem node?_changeAt_insert {contents inside : Contents} {directory : List Name}
    {name : Name} (node : Node) (hreach : contents.reach? directory = some (.directory inside))
    (hfree : inside.find? name = none) (names : List Name) :
    (contents.changeAt (insert name node.item) directory).node? names =
      if names = directory ++ [name] then some node else contents.node? names := by
  induction directory generalizing contents names with
  | nil =>
      cases hreach
      cases names with
      | nil => simp [changeAt]
      | cons first rest =>
          rw [changeAt, node?_cons, node?_cons, find?_insert _ _ hfree]
          by_cases hname : name = first
          · subst hname
            cases node <;> cases rest <;> simp [Node.item, hfree, node?_cons, find?]
          · simp [hname, Ne.symm hname]
  | cons outer further ih =>
      rw [reach?] at hreach
      split at hreach
      next deeper hfind =>
        cases names with
        | nil => simp
        | cons first rest =>
            rw [changeAt, node?_cons, node?_cons, find?_mapInside]
            by_cases houter : outer = first
            · subst houter
              simp [hfind, Item.mapInside, ih hreach]
            · simp [houter, Ne.symm houter]
      · split at hreach <;> cases hreach
      · contradiction

theorem node?_changeAt_erase {contents : Contents} (hsorted : contents.Sorted)
    (directory : List Name) (name : Name) (names : List Name) :
    (contents.changeAt (erase name) directory).node? names =
      if directory ++ [name] <+: names then none else contents.node? names := by
  induction directory generalizing contents names with
  | nil =>
      cases names with
      | nil => simp
      | cons first rest =>
          rw [changeAt, node?_cons, node?_cons, find?_erase hsorted]
          by_cases hname : name = first
          · simp [hname]
          · simp [hname]
  | cons outer further ih =>
      cases names with
      | nil => simp
      | cons first rest =>
          rw [changeAt, node?_cons, node?_cons, find?_mapInside]
          by_cases houter : outer = first
          · subst houter
            cases hfind : contents.find? outer with
            | none => simp
            | some item =>
                cases item with
                | file inode =>
                    cases rest <;> simp [Item.mapInside]
                | directory inside =>
                    simp [Item.mapInside, ih (sorted_of_find? hsorted hfind)]
          · simp [houter]

end Contents

end LinkTags
