import LinkTags.Proofs.Search.Meaning

/-!
# What a leaf gives

The regular files in the directory of a leaf come in the order of their names. A file that
is in it under several names is given under the smallest of them, and under no other
(`Context.exists_entries_of_leaf`).

## Implementation notes

What a leaf gives is told of pairs of names and inodes, since the order is that of the names
and not that of the paths.
-/

namespace LinkTags

/-- The regular files in a directory come in the order of their names. -/
theorem pairwise_regularEntries {contents : Contents} (hsorted : contents.Sorted) :
    (regularEntries contents.entries).Pairwise fun first second => first.1 < second.1 := by
  have hnames := Contents.pairwise_names hsorted
  rw [← Contents.map_name_entries, List.pairwise_map] at hnames
  rw [regularEntries, List.pairwise_filterMap]
  refine hnames.imp ?_
  rintro ⟨name, node⟩ ⟨other, otherNode⟩ hlt first hfirst second hsecond
  cases node with
  | directory => contradiction
  | file inode =>
      cases otherNode with
      | directory => contradiction
      | file otherInode =>
          simp only [Option.ite_none_right_eq_some, Option.some.injEq] at hfirst hsecond
          rw [← hfirst.2, ← hsecond.2]
          exact hlt

namespace Match

theorem ofEntry_injective {path : Path} (hne : path.bytes ≠ []) :
    Function.Injective (ofEntry path) := by
  rintro ⟨name, inode⟩ ⟨other, otherInode⟩ hsame
  obtain ⟨hid, hpath⟩ := Match.mk.inj hsame
  have hnames : path.through [name] = path.through [other] := hpath
  obtain ⟨rfl, -⟩ := List.cons.inj (Path.through_inj hne hnames)
  obtain rfl : inode = otherInode := FileId.file.inj hid
  rfl

/-- Of matches in an order, those are kept that no match of the same file precedes. -/
theorem mem_distinct_map_iff {α : Type} {f : α → Match} (hf : Function.Injective f)
    {before : α → α → Prop} (hbefore : ∀ a b, before a b → ¬before b a) {items : List α}
    (hitems : items.Pairwise before) {item : α} :
    f item ∈ distinct (items.map f) ↔
      item ∈ items ∧ ∀ other ∈ items, before other item → (f other).id ≠ (f item).id := by
  induction hitems with
  | nil => simp [distinct]
  | @cons first rest hfirst _ ih =>
      rw [List.map_cons, distinct, List.mem_cons, hf.eq_iff, List.mem_filter, ih,
        List.forall_mem_cons, List.mem_cons]
      constructor
      · rintro (rfl | ⟨⟨hmem, hrest⟩, hne⟩)
        · refine ⟨.inl rfl, fun hself => absurd hself (hbefore _ _ hself), ?_⟩
          intro other hother hearlier
          exact absurd hearlier (hbefore _ _ (hfirst other hother))
        · exact ⟨.inr hmem, fun _ hsame => by simp [hsame] at hne, hrest⟩
      · rintro ⟨rfl | hmem, hnot, hrest⟩
        · exact .inl rfl
        · exact .inr ⟨⟨hmem, hrest⟩, by simpa using (hnot (hfirst item hmem)).symm⟩

end Match

namespace Context

variable {context : Context} {resolve : String → Path} {path : Path}

/-- The name is the smallest that the regular file has in the directory that the path leads
to. -/
structure IsFirstName (context : Context) (path : Path) (name : Name) (inode : Inode) : Prop where
  held : ∃ location, context.HoldsFile path location name inode
  first : ∀ location other, context.HoldsFile path location other inode → ¬other < name

/-- A leaf gives the regular files of its directory in the order of their names, each file
under the smallest name that it has there. -/
theorem exists_entries_of_leaf {name : String} {found : List Match}
    (h : context.evaluate resolve (.dir name) = .ok found) :
    ∃ entries : List (Name × Inode), found = entries.map (Match.ofEntry (resolve name)) ∧
      (entries.Pairwise fun first second => first.1 < second.1) ∧
      ∀ entry inode, (entry, inode) ∈ entries ↔ context.IsFirstName (resolve name) entry inode := by
  rw [evaluate] at h
  obtain ⟨all, hread, rfl⟩ := matchesIn_eq_ok h
  obtain ⟨place, hlookup, rfl⟩ := readDirectory_eq_ok hread
  obtain ⟨_, hne, _, _⟩ := walk_of_lookup hlookup
  have hinjective := Match.ofEntry_injective hne
  have hsorted := pairwise_regularEntries (sorted_contentsAt context place)
  rw [regularFiles_eq_map]
  obtain ⟨entries, hentries, hkept⟩ := List.sublist_map_iff.1 (Match.sublist_distinct
    ((regularEntries (context.contentsAt place).entries).map (Match.ofEntry (resolve name))))
  refine ⟨entries, hkept, hsorted.sublist hentries, ?_⟩
  intro entry inode
  rw [← List.mem_map_of_injective hinjective, ← hkept,
    Match.mem_distinct_map_iff hinjective (fun _ _ => Std.Asymm.asymm _ _) hsorted,
    mem_regularEntries_readDirectory hread]
  constructor
  · rintro ⟨hheld, hfirst⟩
    refine ⟨hheld, fun location other hother hlt => ?_⟩
    have hmem := (mem_regularEntries_readDirectory hread).2 ⟨location, hother⟩
    exact hfirst _ hmem hlt rfl
  · rintro ⟨hheld, hfirst⟩
    refine ⟨hheld, fun ⟨other, otherInode⟩ hmem hlt hsame => ?_⟩
    obtain rfl : otherInode = inode := FileId.file.inj hsame
    obtain ⟨location, hother⟩ := (mem_regularEntries_readDirectory hread).1 hmem
    exact hfirst location other hother hlt

end Context

end LinkTags
