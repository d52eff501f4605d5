import LinkTags.FileSystem.Basic
import Mathlib.Data.List.Nodup

/-!
# The links of a file

A file has a link at every location where its inode is an entry, and each of them once
(`mem_linksTo`, `nodup_linksTo`), so the number of its links is the length of their list.
Every file of a tree is among its inodes (`mem_inodes_of_node?`).
-/

namespace LinkTags

namespace Contents

variable {contents : Contents} {inode : Inode} {names : List Name}

/-- The links to a file in a directory and below it, each by the names that lead down to it,
the outermost first. -/
def linksTo (inode : Inode) : Contents → List (List Name)
  | .nil => []
  | .file name own rest => if own = inode then [name] :: rest.linksTo inode else rest.linksTo inode
  | .directory name inside rest =>
      (inside.linksTo inode).map (List.cons name) ++ rest.linksTo inode

/-- The links begin with the first name, or they are among the rest. -/
theorem mem_linksTo_cons {name first : Name} {item : Item} {rest : Contents}
    {more : List Name} :
    first :: more ∈ (cons name item rest).linksTo inode ↔
      name = first ∧ (match item with
        | .file own => more = [] ∧ own = inode
        | .directory inside => more ∈ inside.linksTo inode) ∨
      first :: more ∈ rest.linksTo inode := by
  cases item with
  | file own =>
      rw [cons, linksTo]
      split
      next hown => simp [hown, eq_comm]
      next hown => simp [hown]
  | directory inside => simp [cons, linksTo, and_comm]

theorem nil_not_mem_linksTo : [] ∉ contents.linksTo inode := by
  induction contents with
  | nil => exact List.not_mem_nil
  | file name own rest ih =>
      rw [linksTo]
      split <;> simp [ih]
  | directory name inside rest _ ih => simp [linksTo, ih]

/-- The links to a file are where its inode is. -/
theorem mem_linksTo (hsorted : contents.Sorted) :
    names ∈ contents.linksTo inode ↔ contents.node? names = some (.file inode) := by
  cases names with
  | nil => simp [nil_not_mem_linksTo]
  | cons first more =>
      induction contents using induction_cons generalizing first more with
      | nil => simp [linksTo, node?_cons, find?]
      | cons name item rest ihInside ih =>
          have hfree := find?_rest_of_sorted hsorted
          obtain ⟨_, hitem, hrest⟩ := sorted_cons.1 hsorted
          rw [mem_linksTo_cons, ih hrest, node?_cons, node?_cons, find?_cons]
          by_cases hname : name = first
          · subst hname
            rw [hfree, if_pos rfl]
            cases item with
            | file own => by_cases hmore : more = [] <;> simp [hmore]
            | directory inside =>
                cases more with
                | nil => simp [nil_not_mem_linksTo]
                | cons next others => simp [ihInside inside rfl hitem]
          · simp [hname]

theorem nodup_linksTo (hsorted : contents.Sorted) : (contents.linksTo inode).Nodup := by
  induction contents with
  | nil => exact .nil
  | file name own rest ih =>
      have hcons : (cons name (.file own) rest).Sorted := hsorted
      have hfree := find?_rest_of_sorted hcons
      have hrest : [name] ∉ rest.linksTo inode := by
        rw [mem_linksTo hsorted.2, node?_singleton, hfree]
        nofun
      rw [linksTo]
      split
      · exact List.nodup_cons.2 ⟨hrest, ih hsorted.2⟩
      · exact ih hsorted.2
  | directory name inside rest ihInside ih =>
      have hcons : (cons name (.directory inside) rest).Sorted := hsorted
      have hfree := find?_rest_of_sorted hcons
      obtain ⟨_, hinside, hrest⟩ := hsorted
      have hinjective : Function.Injective (List.cons name) := List.cons_injective
      apply ((ihInside hinside).map hinjective).append (ih hrest)
      intro names hfront hback
      obtain ⟨more, _, rfl⟩ := List.mem_map.1 hfront
      rw [mem_linksTo hrest, node?_cons, hfree] at hback
      contradiction

/-- The inodes of all files in a directory and below it. -/
def inodes : Contents → List Inode
  | .nil => []
  | .file _ inode rest => inode :: rest.inodes
  | .directory _ inside rest => inside.inodes ++ rest.inodes

theorem mem_inodes_of_node? (h : contents.node? names = some (.file inode)) :
    inode ∈ contents.inodes := by
  cases names with
  | nil => cases h
  | cons first more =>
      induction contents generalizing first more with
      | nil => cases h
      | file name own rest ih =>
          rw [inodes]
          by_cases hname : name = first
          · rw [node?_cons, find?, if_pos hname] at h
            dsimp only at h
            split at h
            · cases h
              exact List.mem_cons_self
            · contradiction
          · rw [node?_cons, find?, if_neg hname, ← node?_cons] at h
            exact List.mem_cons_of_mem _ (ih first more h)
      | directory name inside rest ihInside ih =>
          rw [inodes]
          by_cases hname : name = first
          · rw [node?_cons, find?, if_pos hname] at h
            cases more with
            | nil => cases h
            | cons next others => exact List.mem_append_left _ (ihInside next others h)
          · rw [node?_cons, find?, if_neg hname, ← node?_cons] at h
            exact List.mem_append_right _ (ih first more h)

end Contents

namespace FileSystem

variable {files : FileSystem} {inode : Inode} {location : Location}

/-- The locations of the links to a file. -/
def linksTo (files : FileSystem) (inode : Inode) : List Location :=
  (files.root.linksTo inode).map List.reverse

theorem mem_linksTo :
    location ∈ files.linksTo inode ↔ files.node? location = some (.file inode) := by
  rw [linksTo, List.mem_map_of_involutive List.reverse_involutive,
    Contents.mem_linksTo files.sorted]
  rfl

theorem nodup_linksTo : (files.linksTo inode).Nodup :=
  (Contents.nodup_linksTo files.sorted).map List.reverse_injective

/-- How many links a file has. -/
def linkCount (files : FileSystem) (inode : Inode) : Nat :=
  (files.linksTo inode).length

end FileSystem

end LinkTags
