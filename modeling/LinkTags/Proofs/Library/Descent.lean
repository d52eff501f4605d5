import LinkTags.Proofs.Library.Discovery
import Mathlib.Data.List.Induction

/-!
# Tags found by going down

Starting from `//` and listing the tags in every tag that is found, one comes to the tags of
the directories that a walk from the root visits, and to no others (`reaches_iff`). A tag
spells the names on the way to its directory, so it is the only one that leads there. The tags
in it are listed unless its path is too long, in the order of the names of the subdirectories
(`exists_tagsIn`).

## Implementation notes

Directories are told by the names on the way from the root, the outermost first, and so the
induction over tags that are found is one that adds a name at the end. Only the directory in
which a tag is listed has to be read. So a tag can be found whose own path is too long.
-/

namespace LinkTags

namespace Context

variable {context : Context} {root : Path} {place : Place} {names : List Name} {name : Name}

/-! ## One name further down -/

theorem walked_concat_iff :
    context.Walked place (place.below (names ++ [name])) ↔
      context.Walked place (place.below names) ∧ place.lost = 0 ∧ name.path ≠ marker ∧
        context.files.IsDirectory (name :: (place.below names).base) := by
  constructor
  · intro h
    -- The place of a walk is an index, so its form has to be kept as an equation.
    generalize hend : place.below (names ++ [name]) = last at h
    cases h with
    | start =>
        have hlength := congrArg (fun place => place.base.length) hend
        simp only [Place.below, List.length_append, List.length_reverse, List.length_singleton]
          at hlength
        omega
    | @enter above own habove hlive hopen hdirectory =>
        have hlost : place.lost = 0 := congrArg Place.lost hend
        have hbase := congrArg Place.base hend
        simp only [Place.below, Place.live, List.reverse_append, List.reverse_singleton,
          List.cons_append, List.cons.injEq] at hbase
        obtain ⟨rfl, hbase⟩ := hbase
        obtain ⟨base, lost⟩ := above
        simp only at hlive hbase
        subst hlive hbase
        rw [Place.below, hlost]
        exact ⟨habove, rfl, hopen, hdirectory⟩
  · rintro ⟨hwalked, hlost, hopen, hdirectory⟩
    have hbelow : place.below (names ++ [name]) = .live (name :: (place.below names).base) := by
      simp [Place.below, Place.live, hlost]
    rw [hbelow]
    exact .enter hwalked hlost hopen hdirectory

/-- The names of the subdirectories of a directory, the marker left out. -/
def subdirectoryNames (context : Context) (place : Place) : List Name :=
  (subdirectories (context.contentsAt place).entries).map Entry.name

theorem mem_subdirectoryNames (hwalked : context.Walked place (place.below names)) :
    name ∈ context.subdirectoryNames (place.below names) ↔
      context.Walked place (place.below (names ++ [name])) := by
  rw [walked_concat_iff, subdirectoryNames, List.mem_map]
  constructor
  · rintro ⟨entry, hentry, rfl⟩
    obtain ⟨hmem, hkind⟩ := List.mem_filter.1 hentry
    obtain ⟨hlost, hnode⟩ := mem_entries_contentsAt.1 hmem
    simp only [decide_eq_true_eq] at hkind
    rw [hkind.1] at hnode
    exact ⟨hwalked, hlost, hkind.2, hnode⟩
  · rintro ⟨_, hlost, hopen, hdirectory⟩
    refine ⟨⟨name, .directory⟩, List.mem_filter.2 ⟨?_, ?_⟩, rfl⟩
    · exact mem_entries_contentsAt.2 ⟨hlost, hdirectory⟩
    · simpa using hopen

theorem pairwise_subdirectoryNames (context : Context) (place : Place) :
    (context.subdirectoryNames place).Pairwise (· < ·) := by
  have hnames := Contents.pairwise_names (sorted_contentsAt context place)
  rw [← Contents.map_name_entries] at hnames
  exact hnames.sublist (List.filter_sublist.map _)

/-- A path of a walk leads to its directory, unless it is too long. -/
theorem lookup_of_walked (hroot : context.lookup root = .ok (.directory place))
    (hwalked : context.Walked place (place.below names)) :
    context.lookup (root.through names) =
      if (root.through names).isTooLong = true then .error .nameTooLong
      else .ok (.directory (place.below names)) := by
  split
  next hlong => exact lookup_through_of_tooLong hroot hlong
  next hshort =>
    obtain ⟨way, hway, hbelow⟩ := (walked_iff_mem_ways (isDirectory_of_lookup hroot)).1 hwalked
    obtain rfl := Place.below_inj hbelow
    exact lookup_of_mem_ways hroot hway hshort

end Context

theorem Path.isTooLong_through_dropLast {root : Path} {names : List Name}
    (h : ¬(root.through names).isTooLong = true) :
    ¬(root.through names.dropLast).isTooLong = true := by
  rcases names.eq_nil_or_concat' with rfl | ⟨front, last, rfl⟩
  · exact h
  · rw [List.dropLast_concat]
    rw [through_concat] at h
    exact fun hlong => h (isTooLong_join hlong last.toComponent)

/-- What is in one of two lists that correspond has something in the other. -/
theorem exists_mem_of_forall₂ {α β : Type} {r : α → β → Prop} {first : List α} {second : List β}
    (h : List.Forall₂ r first second) :
    (∀ a ∈ first, ∃ b ∈ second, r a b) ∧ ∀ b ∈ second, ∃ a ∈ first, r a b := by
  induction h with
  | nil => exact ⟨List.forall_mem_nil _, List.forall_mem_nil _⟩
  | @cons a b first second hfirst _ ih =>
      simp only [List.forall_mem_cons, List.exists_mem_cons_iff]
      exact ⟨⟨.inl hfirst, fun other hother => .inr (ih.1 other hother)⟩,
        .inl hfirst, fun other hother => .inr (ih.2 other hother)⟩

namespace Library

variable {library : Library} {context : Context} {place : Place} {names : List Name}
  {tag other : Tag}

/-! ## Tags that spell their way -/

/-- The tag spells the names on a way down from the root, and stands for the path through
them. -/
structure Spells (library : Library) (names : List Name) (tag : Tag) : Prop where
  spelled : (Path.ofString tag.text).bytes =
    slash :: slash :: [slash].intercalate (names.map fun name => name.bytes)
  path_eq : library.resolveAsPath tag.text = library.root.through names

namespace Spells

theorem top (library : Library) : library.Spells [] .top :=
  ⟨rfl, resolveAsPath_top library.root⟩

theorem unique (h : library.Spells names tag) (hother : library.Spells names other) :
    other = tag := by
  obtain ⟨text, _⟩ := tag
  obtain ⟨text', _⟩ := other
  obtain rfl : text' = text :=
    Path.ofString_inj (congrArg Path.mk (hother.spelled.trans h.spelled.symm))
  rfl

theorem names_eq (hne : library.root.bytes ≠ []) (h : library.Spells names tag)
    {others : List Name} (hothers : library.Spells others tag) : others = names :=
  Path.through_inj hne (hothers.path_eq.symm.trans h.path_eq)

end Spells

/-! ## Tags that are found -/

/-- The tag is found by starting from that of the root and listing the tags in every tag that is
found. -/
inductive Reaches (library : Library) (context : Context) : Tag → Prop where
  | top : Reaches library context .top
  | inside {tag other : Tag} {tags : List Tag} (h : Reaches library context tag)
      (htags : library.tagsIn context tag.text = .ok tags) (hmem : other ∈ tags) :
      Reaches library context other

section Descent

variable (habsolute : library.root.isAbsolute = true)
  (hroot : context.lookup library.root = .ok (.directory place))

include hroot

theorem tagsIn_of_tooLong (h : library.Spells names tag)
    (hlong : (library.root.through names).isTooLong = true) :
    library.tagsIn context tag.text = .error (.filesystem .nameTooLong) := by
  have hread := Context.readDirectory_of_error (Context.lookup_through_of_tooLong hroot hlong)
  rw [Library.tagsIn, h.path_eq, Context.tagsIn, hread]

/-- A tag that spells a walk leads to the directory at its end, if its path is not too long. -/
theorem leadsTo_below_iff (hwalked : context.Walked place (place.below names))
    (h : library.Spells names tag) {others : List Name} :
    library.LeadsTo context tag (place.below others) ↔
      names = others ∧ ¬(library.root.through names).isTooLong = true := by
  rw [LeadsTo, h.path_eq, Context.lookup_of_walked hroot hwalked]
  split
  next hlong => simp [hlong]
  next hshort =>
    simp only [Except.ok.injEq, Found.directory.injEq]
    exact ⟨fun hsame => ⟨Place.below_inj hsame, hshort⟩, fun hsame => hsame.1 ▸ rfl⟩

variable (htext : context.WaysAreText place)

include habsolute htext

/-- The directories of a walk have tags, which spell the ways to them. -/
theorem exists_spells (hwalked : context.Walked place (place.below names)) :
    ∃ tag, library.Spells names tag ∧
      Tag.ofPath context library.root (library.root.through names) = .ok tag := by
  obtain ⟨_, hne, _, _⟩ := Context.walk_of_lookup hroot
  have hroute : context.absolute library.root = .ok (Route.root.followAll library.root.steps) :=
    if_pos habsolute
  obtain ⟨tag, htag, hspelled⟩ := Tag.exists_ofPath_through hne hroute (htext names hwalked)
  exact ⟨tag, ⟨hspelled, Tag.resolveAsPath_of_ofPath_through hne htag⟩, htag⟩

/-- The tags of paths of a walk are those that spell the ways. -/
theorem exists_tagsOfPaths {ways : List (List Name)}
    (hwalked : ∀ names ∈ ways, context.Walked place (place.below names)) :
    ∃ tags, context.tagsOfPaths library.root (ways.map library.root.through) = .ok tags ∧
      List.Forall₂ library.Spells ways tags := by
  have hpaths : ∀ path ∈ ways.map library.root.through,
      ∃ tag, Tag.ofPath context library.root path = .ok tag := by
    intro path hpath
    obtain ⟨names, hnames, rfl⟩ := List.mem_map.1 hpath
    obtain ⟨tag, _, htag⟩ := exists_spells habsolute hroot htext (hwalked names hnames)
    exact ⟨tag, htag⟩
  obtain ⟨tags, htags, _⟩ := Context.exists_tagsOfPaths hpaths
  have hof := List.forall₂_map_left_iff.1 (Context.tagsOfPaths_eq_ok htags)
  refine ⟨tags, htags, ((List.forall₂_and_left _ _).2 ⟨hwalked, hof⟩).imp ?_⟩
  rintro names tag ⟨hnames, htag⟩
  obtain ⟨other, hspells, hother⟩ := exists_spells habsolute hroot htext hnames
  cases hother.symm.trans htag
  exact hspells

/-- The tags in a directory are those of its subdirectories. -/
theorem exists_tagsIn (hwalked : context.Walked place (place.below names))
    (h : library.Spells names tag)
    (hshort : ¬(library.root.through names).isTooLong = true) :
    ∃ tags, library.tagsIn context tag.text = .ok tags ∧
      List.Forall₂ (fun name other => library.Spells (names ++ [name]) other)
        (context.subdirectoryNames (place.below names)) tags := by
  have hlookup := Context.lookup_of_walked hroot hwalked
  rw [if_neg hshort] at hlookup
  have hways : ((subdirectories (context.contentsAt (place.below names)).entries).map
        fun entry => (library.root.through names).join entry.name.path) =
      ((context.subdirectoryNames (place.below names)).map
        fun name => names ++ [name]).map library.root.through := by
    rw [Context.subdirectoryNames, List.map_map, List.map_map]
    apply List.map_congr_left
    intro entry _
    exact (Path.through_concat _ _ _).symm
  have hall : ∀ way ∈ (context.subdirectoryNames (place.below names)).map
      fun name => names ++ [name], context.Walked place (place.below way) := by
    intro way hway
    obtain ⟨name, hname, rfl⟩ := List.mem_map.1 hway
    exact (Context.mem_subdirectoryNames hwalked).1 hname
  obtain ⟨tags, htags, hspells⟩ := exists_tagsOfPaths habsolute hroot htext hall
  refine ⟨tags, ?_, List.forall₂_map_left_iff.1 hspells⟩
  rw [Library.tagsIn, h.path_eq, Context.tagsIn, Context.readDirectory_of_lookup hlookup]
  dsimp only
  rw [hways, htags]

/-- The tags that are found are those of the directories of a walk whose parents have paths that
are not too long. -/
theorem reaches_iff :
    library.Reaches context tag ↔
      ∃ names, context.Walked place (place.below names) ∧
        ¬(library.root.through names.dropLast).isTooLong = true ∧ library.Spells names tag := by
  obtain ⟨_, _, hrootShort, _⟩ := Context.walk_of_lookup hroot
  constructor
  · intro h
    induction h with
    | top => exact ⟨[], .start, hrootShort, .top library⟩
    | @inside tag other tags _ htags hmem ih =>
        obtain ⟨names, hwalked, _, hspells⟩ := ih
        have hshort : ¬(library.root.through names).isTooLong = true := by
          intro hlong
          cases htags.symm.trans (tagsIn_of_tooLong hroot hspells hlong)
        obtain ⟨found, hfound, hinside⟩ :=
          exists_tagsIn habsolute hroot htext hwalked hspells hshort
        obtain rfl : tags = found := Except.ok.inj (htags.symm.trans hfound)
        obtain ⟨name, hname, hother⟩ := (exists_mem_of_forall₂ hinside).2 other hmem
        refine ⟨names ++ [name], (Context.mem_subdirectoryNames hwalked).1 hname, ?_, hother⟩
        rwa [List.dropLast_concat]
  · rintro ⟨names, hwalked, hshort, hspells⟩
    induction names using List.reverseRecOn generalizing tag with
    | nil =>
        rw [(Spells.top library).unique hspells]
        exact .top
    | append_singleton names name ih =>
        -- The tag above is found too, since the path of its own parent is shorter still.
        rw [List.dropLast_concat] at hshort
        obtain ⟨habove, _⟩ := Context.walked_concat_iff.1 hwalked
        obtain ⟨above, hspelled, _⟩ := exists_spells habsolute hroot htext habove
        obtain ⟨tags, htags, hinside⟩ :=
          exists_tagsIn habsolute hroot htext habove hspelled hshort
        have hname := (Context.mem_subdirectoryNames habove).2 hwalked
        obtain ⟨found, hfound, hof⟩ := (exists_mem_of_forall₂ hinside).1 name hname
        rw [hof.unique hspells]
        exact .inside (ih habove (Path.isTooLong_through_dropLast hshort) hspelled) htags hfound

/-- The tags of a file are found, if they are listed. -/
theorem exists_tagsOf_reaches {file : Path} {id : FileId} (hfile : context.identity file = .ok id)
    (hshort : ¬context.WalkIsTooLong library.root place) :
    ∃ tags, library.tagsOf context file = .ok tags ∧
      ∀ tag ∈ tags, library.Reaches context tag := by
  have hplace := Context.isDirectory_of_lookup hroot
  -- The directories that hold the file are among those that the walk visits.
  generalize hways : (((context.contentsAt place).ways.filter fun way =>
    Context.linksAmong id (library.root.through way.1, way.2) ≠ []).map Prod.fst) = ways
  have hwalked : ∀ names ∈ ways, context.Walked place (place.below names) := by
    rw [← hways]
    intro names hnames
    obtain ⟨way, hway, rfl⟩ := List.mem_map.1 hnames
    exact (Context.walked_iff_mem_ways hplace).2 ⟨way, (List.mem_filter.1 hway).1, rfl⟩
  obtain ⟨tags, htags, hspells⟩ := exists_tagsOfPaths habsolute hroot htext hwalked
  refine ⟨tags, ?_, ?_⟩
  · rw [Library.tagsOf, Context.tagsOf_eq, hfile, Context.walkFiles_of_short hroot hshort]
    dsimp only
    rw [← htags, ← hways, List.filter_map, List.map_map, List.map_map]
    rfl
  · intro tag htag
    obtain ⟨names, hnames, hof⟩ := (exists_mem_of_forall₂ hspells).2 tag htag
    have hnot : ¬(library.root.through names).isTooLong = true :=
      fun hlong => hshort ⟨names, hwalked names hnames, hlong⟩
    exact (reaches_iff habsolute hroot htext).2
      ⟨names, hwalked names hnames, Path.isTooLong_through_dropLast hnot, hof⟩

end Descent

theorem nodup_of_spells (hne : library.root.bytes ≠ []) {subdirectories : List Name}
    {tags : List Tag} (hnames : subdirectories.Nodup)
    (h : List.Forall₂ (fun name other => library.Spells (names ++ [name]) other)
      subdirectories tags) : tags.Nodup := by
  induction h with
  | nil => exact .nil
  | @cons name tag others tags hfirst hrest ih =>
      rw [List.nodup_cons] at hnames ⊢
      refine ⟨?_, ih hnames.2⟩
      intro hmem
      obtain ⟨other, hother, hof⟩ := (exists_mem_of_forall₂ hrest).2 tag hmem
      have hsame := List.append_cancel_left (hfirst.names_eq hne hof)
      rw [List.singleton_inj.1 hsame] at hother
      exact hnames.1 hother

/-- Of the tags that are found from that of an absolute root, where the ways to all directories
are text. Each spells the names on the way to a directory that can be walked to, and its path
leads there, unless it is too long. The tags in it are listed exactly if its path is not too
long, and are those of its subdirectories, in the order of their names and each once. Different
tags have different paths, and one tag leads to each directory whose path is not too long. The
tags of a file are found in this way, if no path is too long, and are not listed otherwise. -/
theorem tags_are_reached (habsolute : library.root.isAbsolute = true)
    (hroot : context.lookup library.root = .ok (.directory place))
    (htext : context.WaysAreText place) :
    (∀ tag, library.Reaches context tag → ∃ names,
      context.Walked place (place.below names) ∧ library.Spells names tag ∧
      context.lookup (library.resolveAsPath tag.text) =
        (if (library.resolveAsPath tag.text).isTooLong = true then .error .nameTooLong
        else .ok (.directory (place.below names))) ∧
      ((library.resolveAsPath tag.text).isTooLong = true →
        library.tagsIn context tag.text = .error (.filesystem .nameTooLong)) ∧
      (¬(library.resolveAsPath tag.text).isTooLong = true →
        ∃ (subdirectories : List Name) (tags : List Tag),
          library.tagsIn context tag.text = .ok tags ∧ tags.Nodup ∧
          subdirectories.Pairwise (· < ·) ∧
          (∀ name, name ∈ subdirectories ↔
            context.Walked place (place.below (names ++ [name]))) ∧
          List.Forall₂ (fun name other => library.Spells (names ++ [name]) other)
            subdirectories tags)) ∧
    (∀ tag other, library.Reaches context tag → library.Reaches context other →
      library.resolveAsPath tag.text = library.resolveAsPath other.text → tag = other) ∧
    (∀ holder, context.Walked place holder → ∃ names, holder = place.below names ∧
      (¬(library.root.through names).isTooLong = true →
        ∃! tag, library.Reaches context tag ∧ library.LeadsTo context tag holder)) ∧
    ∀ file id, context.identity file = .ok id →
      (context.WalkIsTooLong library.root place →
        library.tagsOf context file = .error (.filesystem .nameTooLong)) ∧
      (¬context.WalkIsTooLong library.root place →
        ∃ tags, library.tagsOf context file = .ok tags ∧
          ∀ tag ∈ tags, library.Reaches context tag) := by
  obtain ⟨_, hne, _, _⟩ := Context.walk_of_lookup hroot
  have hplace := Context.isDirectory_of_lookup hroot
  have hreaches {tag : Tag} := @reaches_iff library context place tag habsolute hroot htext
  refine ⟨?_, ?_, ?_, ?_⟩
  · intro tag htag
    obtain ⟨names, hwalked, _, hspells⟩ := hreaches.1 htag
    rw [hspells.path_eq]
    refine ⟨names, hwalked, hspells, Context.lookup_of_walked hroot hwalked, ?_, ?_⟩
    · exact tagsIn_of_tooLong hroot hspells
    · intro hshort
      obtain ⟨tags, htags, hinside⟩ := exists_tagsIn habsolute hroot htext hwalked hspells hshort
      have hordered := context.pairwise_subdirectoryNames (place.below names)
      have hnodup : (context.subdirectoryNames (place.below names)).Nodup := by
        refine hordered.imp ?_
        rintro name _ hlt rfl
        exact Std.Irrefl.irrefl name hlt
      exact ⟨_, tags, htags, nodup_of_spells hne hnodup hinside, hordered,
        fun name => Context.mem_subdirectoryNames hwalked, hinside⟩
  · intro tag other htag hother hsame
    obtain ⟨names, _, _, hspells⟩ := hreaches.1 htag
    obtain ⟨others, _, _, hspells'⟩ := hreaches.1 hother
    rw [hspells.path_eq, hspells'.path_eq] at hsame
    obtain rfl := Path.through_inj hne hsame
    exact hspells'.unique hspells
  · intro holder hwalked
    obtain ⟨⟨names, _⟩, _, rfl⟩ := (Context.walked_iff_mem_ways hplace).1 hwalked
    refine ⟨names, rfl, ?_⟩
    intro hshort
    obtain ⟨tag, hspells, _⟩ := exists_spells habsolute hroot htext hwalked
    refine ⟨tag, ⟨hreaches.2 ⟨names, hwalked, Path.isTooLong_through_dropLast hshort, hspells⟩,
      (leadsTo_below_iff hroot hwalked hspells).2 ⟨rfl, hshort⟩⟩, ?_⟩
    rintro other ⟨hother, hleads⟩
    obtain ⟨others, hwalked', _, hspells'⟩ := hreaches.1 hother
    obtain ⟨rfl, _⟩ := (leadsTo_below_iff hroot hwalked' hspells').1 hleads
    exact hspells.unique hspells'
  · intro file id hfile
    exact ⟨Context.tagsOf_of_tooLong hroot hfile,
      exists_tagsOf_reaches habsolute hroot htext hfile⟩

end Library

namespace Context

/-- Both directories of the shelf are found below a root that spells it by a detour, and one
tag leads to each. -/
theorem shelf_tags_are_reached :
    (Path.ofString "/A/..").isAbsolute = true ∧
    shelf.lookup (.ofString "/A/..") = .ok (.directory .root) ∧ shelf.WaysAreText .root ∧
    (∃ tags, Library.tagsIn ⟨.ofString "/A/.."⟩ shelf Tag.top.text = .ok tags ∧
      tags.map Tag.text = ["//A", "//B"] ∧ tags.Nodup) ∧
    ∃! tag, Library.Reaches ⟨.ofString "/A/.."⟩ shelf tag ∧
      Library.LeadsTo ⟨.ofString "/A/.."⟩ shelf tag (.live [nameB]) := by
  have hplace : shelf.files.IsDirectory Place.root.base := shelf.housed
  have hroot : shelf.lookup (.ofString "/A/..") = .ok (.directory .root) := by rfl
  have htext : shelf.WaysAreText .root := waysAreText_of_ways hplace (by decide +kernel)
  obtain ⟨hinside, _, hplaces, _⟩ :=
    @Library.tags_are_reached ⟨.ofString "/A/.."⟩ _ _ rfl hroot htext
  refine ⟨rfl, hroot, htext, ?_, ?_⟩
  · obtain ⟨_, _, _, _, _, hlisted⟩ := hinside .top .top
    obtain ⟨_, tags, htags, hnodup, _⟩ := hlisted (by decide)
    have htexts : (Library.tagsIn ⟨.ofString "/A/.."⟩ shelf Tag.top.text).map
        (fun tags => tags.map Tag.text) = .ok ["//A", "//B"] := by
      rw [Library.tagsIn, tagsIn, readDirectory_eq]
      rfl
    rw [htags] at htexts
    exact ⟨tags, htags, Except.ok.inj htexts, hnodup⟩
  · have hB : shelf.Walked .root (.live [nameB]) :=
      (walked_live_iff hplace).2 ⟨[nameB], by decide, by decide, rfl⟩
    obtain ⟨names, hbelow, htag⟩ := hplaces _ hB
    have hsame : Place.below .root names = Place.below .root [nameB] := hbelow.symm
    obtain rfl := Place.below_inj hsame
    exact htag (by decide)

/-- A path down the shaft takes a slash and a name for each directory. -/
theorem length_through_replicate {depth : Nat} (h : 0 < depth) :
    ((Path.ofString "/").through (List.replicate depth nameA)).bytes.length = 2 * depth := by
  obtain ⟨depth, rfl⟩ := Nat.exists_eq_add_one.2 h
  have hlength := length_intercalate_replicate depth nameA.bytes
  have hone : nameA.bytes.length = 1 := rfl
  have hlead : (Path.ofString "/").lead.length = 1 := by decide
  rw [List.replicate_succ, Path.bytes_through_cons (by decide), ← List.replicate_succ,
    List.map_replicate, List.length_append, hlead]
  rw [hone] at hlength
  omega

/-- Going down the shaft one finds a tag in which no tags can be listed, and never the tag of
the deepest directory. -/
theorem shaft_descent_fails :
    (Path.ofString "/").isAbsolute = true ∧
    shaft.lookup (.ofString "/") = .ok (.directory .root) ∧ shaft.WaysAreText .root ∧
    (∃ tag, Library.Reaches ⟨.ofString "/"⟩ shaft tag ∧
      Library.tagsIn ⟨.ofString "/"⟩ shaft tag.text = .error (.filesystem .nameTooLong)) ∧
    ∃ holder, shaft.Walked .root holder ∧ ∀ tag, Library.Reaches ⟨.ofString "/"⟩ shaft tag →
      ¬Library.LeadsTo ⟨.ofString "/"⟩ shaft tag holder := by
  have habsolute : (Path.ofString "/").isAbsolute = true := by decide
  have hroot : shaft.lookup (.ofString "/") = .ok (.directory .root) := by rfl
  have hlong {depth : Nat} (h : 0 < depth) :
      ((Path.ofString "/").through (List.replicate depth nameA)).isTooLong = true ↔
        2048 ≤ depth := by
    rw [Path.isTooLong, decide_eq_true_eq, length_through_replicate h, pathLimit]
    omega
  have hreaches {tag : Tag} :=
    @Library.reaches_iff ⟨.ofString "/"⟩ _ _ tag habsolute hroot shaft_waysAreText
  refine ⟨habsolute, hroot, shaft_waysAreText, ?_, ?_⟩
  · have hwalked := shaft_walked 2048 2048 rfl
    obtain ⟨tag, hspells, _⟩ :=
      @Library.exists_spells ⟨.ofString "/"⟩ _ _ _ habsolute hroot shaft_waysAreText hwalked
    refine ⟨tag, hreaches.2 ⟨_, hwalked, ?_, hspells⟩, ?_⟩
    · rw [List.dropLast_replicate]
      exact (hlong (by omega)).not.2 (by omega)
    · exact Library.tagsIn_of_tooLong hroot hspells ((hlong (by omega)).2 (by omega))
  · have hdeepest := shaft_walked 4096 0 rfl
    refine ⟨_, hdeepest, ?_⟩
    intro tag htag hleads
    obtain ⟨names, hwalked, _, hspells⟩ := hreaches.1 htag
    obtain ⟨rfl, hshort⟩ := (Library.leadsTo_below_iff hroot hwalked hspells).1 hleads
    exact hshort ((hlong (by omega)).2 (by omega))

end Context

end LinkTags
