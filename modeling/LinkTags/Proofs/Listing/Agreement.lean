import LinkTags.Library
import LinkTags.Proofs.Listing.Parents
import LinkTags.Proofs.Tag.Below
import Mathlib.Data.List.Nodup

/-!
# Listing and searching agree

The tags of a file are the tags of the directories that hold a link to it, one tag for
each directory and in the order of a walk. A search for one of these tags gives a path
to the file (`tagsOf_agrees_with_search`). None of this depends on how the root of the
library is spelled.

## Implementation notes

A tag of the listing is made from the parent of a link, and no parent is taken twice. It is
the tag of the path that the walk has put together for the directory (`tagsOf_eq`), and a
search makes a path of it again. That this is the same path (`resolve_tagsOfPaths`) is all
that has to be known of tags. The rest is about ways from the root, which have no spelling.
-/

namespace LinkTags

namespace Context

/-- The directory is in the tree and has a link to the file among its entries. -/
def Holds (context : Context) (place : Place) (inode : Inode) : Prop :=
  place.lost = 0 ∧ ∃ name, context.files.node? (name :: place.base) = some (.file inode)

theorem holds_iff {context : Context} {place : Place} {inode : Inode} :
    context.Holds place inode ↔
      ∃ name, ⟨name, .file inode⟩ ∈ (context.contentsAt place).entries := by
  simp only [Holds, mem_entries_contentsAt, exists_and_left]

/-- Links to a regular file among the entries of a directory are found by its inode. -/
theorem linksAmong_ne_nil_iff {inode : Inode} (hregular : inode.kind = .regular)
    {visit : Path × List Entry} :
    linksAmong (.file inode) visit ≠ [] ↔ ∃ name, ⟨name, .file inode⟩ ∈ visit.2 := by
  rw [linksAmong, ne_eq, List.map_eq_nil_iff, List.filter_eq_nil_iff, not_forall]
  simp only [decide_eq_true_eq, not_forall, not_not, mem_regularFiles]
  constructor
  · rintro ⟨item, ⟨name, other, hentry, _, rfl⟩, heq⟩
    cases heq
    exact ⟨name, hentry⟩
  · rintro ⟨name, hentry⟩
    exact ⟨_, ⟨name, inode, hentry, hregular, rfl⟩, rfl⟩

variable {context : Context} {root : Path}

/-- Each of several tags is that of its path. -/
theorem tagsOfPaths_eq_ok {paths : List Path} {tags : List Tag}
    (h : context.tagsOfPaths root paths = .ok tags) :
    List.Forall₂ (fun path tag => Tag.ofPath context root path = .ok tag) paths tags := by
  induction paths generalizing tags with
  | nil =>
      cases h
      exact .nil
  | cons path rest ih =>
      rw [tagsOfPaths] at h
      split at h
      · contradiction
      next tag htag =>
        split at h
        · contradiction
        next others hothers =>
          cases h
          exact .cons htag (ih hothers)

/-- The tags of paths below the root stand for these paths. -/
theorem resolve_tagsOfPaths (hne : root.bytes ≠ []) {ways : List (List Name)}
    {tags : List Tag} (h : context.tagsOfPaths root (ways.map root.through) = .ok tags) :
    tags.map (fun tag => resolveAsPath root tag.text) = ways.map root.through := by
  have htags := List.forall₂_map_left_iff.1 (tagsOfPaths_eq_ok h)
  clear h
  induction htags with
  | nil => rfl
  | cons htag _ ih =>
      rw [List.map_cons, List.map_cons, ih, Tag.resolveAsPath_of_ofPath_through hne htag]

/-- The ways to the directories that hold a link to the file. -/
def waysTo (context : Context) (root : Path) (place : Place) (inode : Inode) :
    List (List Name) :=
  ((context.contentsAt place).ways.filter fun way =>
    linksAmong (.file inode) (root.through way.1, way.2) ≠ []).map Prod.fst

section waysTo

variable {place : Place} {inode : Inode}

theorem pairwise_waysTo : (context.waysTo root place inode).Pairwise (· < ·) :=
  (Contents.pairwise_ways (sorted_contentsAt context place)).sublist (List.filter_sublist.map _)

theorem mem_waysTo (hplace : context.files.IsDirectory place.base)
    (hregular : inode.kind = .regular) {names : List Name} :
    names ∈ context.waysTo root place inode ↔
      context.Walked place (place.below names) ∧ context.Holds (place.below names) inode := by
  simp only [waysTo, List.mem_map, List.mem_filter, decide_eq_true_eq,
    linksAmong_ne_nil_iff hregular]
  rw [walked_iff_mem_ways hplace, holds_iff]
  constructor
  · rintro ⟨way, ⟨hway, hholds⟩, rfl⟩
    exact ⟨⟨way, hway, rfl⟩, by rwa [← entries_of_mem_ways hplace hway]⟩
  · rintro ⟨⟨way, hway, hbelow⟩, hholds⟩
    obtain rfl := Place.below_inj hbelow
    rw [← entries_of_mem_ways hplace hway] at hholds
    exact ⟨way, ⟨hway, hholds⟩, rfl⟩

/-- Of the directories visited, those that hold the file are at the ends of its ways. -/
theorem map_through_waysTo :
    ((((context.contentsAt place).ways.map fun way => (root.through way.1, way.2)).filter
        fun visit => linksAmong (.file inode) visit ≠ []).map Prod.fst) =
      (context.waysTo root place inode).map root.through := by
  rw [waysTo, List.filter_map, List.map_map, List.map_map]
  rfl

/-- The tags of a file stand for the paths of the directories that hold it, which lead to
these directories and come in the order of the walk. -/
theorem tagsOf_eq_ok {file : Path} {tags : List Tag}
    (hroot : context.lookup root = .ok (.directory place))
    (hfile : context.identity file = .ok (.file inode))
    (h : context.tagsOf root file = .ok tags) :
    tags.map (fun tag => resolveAsPath root tag.text) =
        (context.waysTo root place inode).map root.through ∧
      (∀ names ∈ context.waysTo root place inode,
        context.lookup (root.through names) = .ok (.directory (place.below names))) ∧
      ∃ visits, context.walkFiles root = .ok visits ∧
        ((context.waysTo root place inode).map root.through).Sublist (visits.map Prod.fst) := by
  obtain ⟨_, hne, _, _⟩ := walk_of_lookup hroot
  rw [tagsOf_eq, hfile] at h
  dsimp only at h
  split at h
  · contradiction
  next visits hvisits =>
    obtain ⟨rfl, hshort⟩ := walkFiles_eq_ok hroot hvisits
    rw [map_through_waysTo] at h
    refine ⟨resolve_tagsOfPaths hne h, ?_, _, hvisits, ?_⟩
    · intro names hnames
      obtain ⟨way, hway, rfl⟩ := List.mem_map.1 hnames
      have hmem := (List.mem_filter.1 hway).1
      exact lookup_of_mem_ways hroot hmem (hshort _ (List.mem_map_of_mem hmem))
    · rw [← map_through_waysTo]
      exact List.filter_sublist.map _

end waysTo

/-! ## Searching for a tag -/

/-- A search of a directory gives a path to each regular file in it. -/
theorem search_of_holdsFile {resolve : String → Path} {name : String} {location : Location}
    {entry : Name} {inode : Inode}
    (h : context.HoldsFile (resolve name) location entry inode) :
    ∃ paths, context.search resolve (.dir name) = .ok paths ∧
      ∃ location entry, context.HoldsFile (resolve name) location entry inode ∧
        (resolve name).join entry.path ∈ paths := by
  have hmatches : ∃ found, context.matchesIn (resolve name) = .ok found := by
    simp [matchesIn, readDirectory_of_lookup h.leads]
  obtain ⟨found, hfound⟩ := hmatches
  have hrepresents := represents_dir hfound
  obtain ⟨item, hitem, hid⟩ := List.mem_map.1 ((hrepresents.mem_iff (.file inode)).2 (.dir h))
  obtain ⟨other, hother, location, entry, inode', hholds, rfl⟩ :=
    hrepresents.witnessed item hitem
  obtain rfl : other = name := by simpa [Query.leaves] using hother
  cases hid
  refine ⟨found.map Match.path, by simp [search, evaluate, hfound], location, entry, hholds, ?_⟩
  exact List.mem_map_of_mem hitem

end Context

namespace Library

/-- The tag is resolved to a path that leads to the directory. -/
def LeadsTo (library : Library) (context : Context) (tag : Tag) (place : Place) : Prop :=
  context.lookup (library.resolveAsPath tag.text) = .ok (.directory place)

variable {library : Library} {context : Context} {place : Place} {file : Path} {inode : Inode}
  {tags : List Tag}

section tagsOf

variable (hroot : context.lookup library.root = .ok (.directory place))
  (hfile : context.identity file = .ok (.file inode))
  (h : library.tagsOf context file = .ok tags)

include hroot hfile h

/-- The directories that the tags of a file lead to, in the order of the tags. -/
theorem map_lookup_tagsOf :
    tags.map (fun tag => context.lookup (library.resolveAsPath tag.text)) =
      (context.waysTo library.root place inode).map fun names =>
        .ok (.directory (place.below names)) := by
  obtain ⟨hresolve, hlookup, _⟩ := Context.tagsOf_eq_ok hroot hfile h
  calc tags.map (fun tag => context.lookup (library.resolveAsPath tag.text))
    _ = (tags.map fun tag => library.resolveAsPath tag.text).map context.lookup := by
      rw [List.map_map]
      rfl
    _ = ((context.waysTo library.root place inode).map library.root.through).map
          context.lookup := congrArg (List.map context.lookup) hresolve
    _ = (context.waysTo library.root place inode).map
          (fun names => context.lookup (library.root.through names)) := by
      rw [List.map_map]
      rfl
    _ = _ := List.map_congr_left hlookup

/-- The tags come in the order of the names on the way to their directories. -/
theorem pairwise_tagsOf :
    tags.Pairwise fun first second => ∀ one other,
      library.LeadsTo context first one → library.LeadsTo context second other →
        one.base.reverse < other.base.reverse := by
  have hways : ((context.waysTo library.root place inode).map fun names =>
      (.ok (.directory (place.below names)) : Except FileError Found)).Pairwise
      fun first second => ∀ one other, first = .ok (.directory one) →
        second = .ok (.directory other) → one.base.reverse < other.base.reverse := by
    apply Context.pairwise_waysTo.map
    rintro names others hlt _ _ ⟨⟩ ⟨⟩
    simpa [Place.below] using List.append_left_lt hlt
  rw [← map_lookup_tagsOf hroot hfile h] at hways
  exact List.pairwise_map.1 hways

/-- No two tags lead to one directory. -/
theorem nodup_lookup_tagsOf :
    (tags.map fun tag => context.lookup (library.resolveAsPath tag.text)).Nodup := by
  rw [map_lookup_tagsOf hroot hfile h]
  apply Context.pairwise_waysTo.map
  intro names others hlt heq
  obtain rfl : names = others := Place.below_inj (by simpa using heq)
  exact List.lt_irrefl names hlt

/-- Each tag leads to a directory that holds the file. -/
theorem exists_leadsTo_of_mem_tagsOf (hregular : inode.kind = .regular) {tag : Tag}
    (htag : tag ∈ tags) :
    ∃ holder, context.Walked place holder ∧ context.Holds holder inode ∧
      library.LeadsTo context tag holder := by
  have hmem := List.mem_map_of_mem
    (f := fun tag => context.lookup (library.resolveAsPath tag.text)) htag
  rw [map_lookup_tagsOf hroot hfile h] at hmem
  obtain ⟨names, hnames, hlookup⟩ := List.mem_map.1 hmem
  obtain ⟨hwalked, hholds⟩ :=
    (Context.mem_waysTo (Context.isDirectory_of_lookup hroot) hregular).1 hnames
  exact ⟨place.below names, hwalked, hholds, hlookup.symm⟩

/-- Each directory that holds the file has a tag. -/
theorem exists_mem_tagsOf (hregular : inode.kind = .regular) {holder : Place}
    (hwalked : context.Walked place holder) (hholds : context.Holds holder inode) :
    ∃ tag ∈ tags, library.LeadsTo context tag holder := by
  have hplace := Context.isDirectory_of_lookup hroot
  obtain ⟨way, _, rfl⟩ := (Context.walked_iff_mem_ways hplace).1 hwalked
  have hnames : way.1 ∈ context.waysTo library.root place inode :=
    (Context.mem_waysTo hplace hregular).2 ⟨hwalked, hholds⟩
  have hmem := List.mem_map_of_mem
    (f := fun names => (.ok (.directory (place.below names)) : Except FileError Found)) hnames
  rw [← map_lookup_tagsOf hroot hfile h] at hmem
  exact List.mem_map.1 hmem

end tagsOf

/-- The tags of a file are different, and lead to the directories that hold it: each tag
to one, and one tag to each. They come in the order of the walk, which is that of the
names on the way from the root of the tree. A search for one of them gives a path to the
file, which names it unless it is too long. -/
theorem tagsOf_agrees_with_search {directory : Location} {name : Name}
    (hroot : context.lookup library.root = .ok (.directory place))
    (hfile : context.lookupEntry file = .ok (.file directory name inode))
    (hregular : inode.kind = .regular) (htags : library.tagsOf context file = .ok tags) :
    tags.Nodup ∧
    (∀ tag ∈ tags, ∃ paths, library.search context (.dir tag.text) = .ok paths ∧
      ∃ location entry,
        context.HoldsFile (library.resolveAsPath tag.text) location entry inode ∧
        (library.resolveAsPath tag.text).join entry.path ∈ paths ∧
        context.identity ((library.resolveAsPath tag.text).join entry.path) =
          if ((library.resolveAsPath tag.text).join entry.path).isTooLong = true then
            .error .nameTooLong
          else .ok (.file inode)) ∧
    (∀ holder, context.Walked place holder → context.Holds holder inode →
      ∃! tag, tag ∈ tags ∧ library.LeadsTo context tag holder) ∧
    (∀ tag ∈ tags, ∃ holder, context.Walked place holder ∧ context.Holds holder inode ∧
      library.LeadsTo context tag holder) ∧
    (∃ visits, context.walkFiles library.root = .ok visits ∧
      (tags.map fun tag => library.resolveAsPath tag.text).Sublist (visits.map Prod.fst)) ∧
    tags.Pairwise fun first second => ∀ one other,
      library.LeadsTo context first one → library.LeadsTo context second other →
        one.base.reverse < other.base.reverse := by
  have hidentity : context.identity file = .ok (.file inode) := by
    rw [Context.identity, hfile]
    rfl
  have hnodup := nodup_lookup_tagsOf hroot hidentity htags
  have hleads {tag : Tag} (htag : tag ∈ tags) :=
    exists_leadsTo_of_mem_tagsOf hroot hidentity htags hregular htag
  refine ⟨hnodup.of_map _, ?_, ?_, fun tag htag => hleads htag, ?_,
    pairwise_tagsOf hroot hidentity htags⟩
  · intro tag htag
    obtain ⟨⟨base, lost⟩, _, ⟨rfl, entry, hnode⟩, hlookup⟩ := hleads htag
    obtain ⟨paths, hpaths, location, other, hholds, hmem⟩ :=
      Context.search_of_holdsFile ⟨hlookup, hnode, hregular⟩
    refine ⟨paths, hpaths, location, other, hholds, hmem, ?_⟩
    rw [Context.identity, Context.lookupEntry_join_file hholds.leads hholds.node]
    by_cases hlong : ((library.resolveAsPath tag.text).join other.path).isTooLong = true
    · rw [if_pos hlong, if_pos hlong]
    · rw [if_neg hlong, if_neg hlong]
      rfl
  · intro holder hwalked hholds
    obtain ⟨tag, htag, hholder⟩ :=
      exists_mem_tagsOf hroot hidentity htags hregular hwalked hholds
    refine ⟨tag, ⟨htag, hholder⟩, ?_⟩
    rintro other ⟨hother, hsame⟩
    exact List.inj_on_of_nodup_map hnodup hother htag (hsame.trans hholder.symm)
  · obtain ⟨hresolve, _, visits, hvisits, hsublist⟩ :=
      Context.tagsOf_eq_ok hroot hidentity htags
    exact ⟨visits, hvisits, hresolve ▸ hsublist⟩

/-- A library whose root is spelled as what is above a directory in it. -/
def shelf : Library := ⟨Path.ofString "A/.."⟩

/-- The spelling of the root does not show in the tags, and they lead to the directories
that hold the file. -/
theorem shelf_tagsOf_agrees :
    shelf.tagsOf Context.shelf (Path.ofString "B/x") =
      .ok [⟨"//A", isTag_append "A"⟩, ⟨"//B", isTag_append "B"⟩] ∧
    ∀ tag ∈ ([⟨"//A", isTag_append "A"⟩, ⟨"//B", isTag_append "B"⟩] : List Tag), ∃ holder,
      Context.shelf.Walked .root holder ∧ Context.shelf.Holds holder ⟨0, .regular⟩ ∧
      shelf.LeadsTo Context.shelf tag holder := by
  have hroot : Context.shelf.lookup shelf.root = .ok (.directory .root) := by rfl
  have hfile : Context.shelf.lookupEntry (Path.ofString "B/x") =
      .ok (.file [⟨⟨[0x42], by decide⟩, by decide, by decide⟩]
        ⟨⟨[0x78], by decide⟩, by decide, by decide⟩ ⟨0, .regular⟩) := by rfl
  have htags : shelf.tagsOf Context.shelf (Path.ofString "B/x") =
      .ok [⟨"//A", isTag_append "A"⟩, ⟨"//B", isTag_append "B"⟩] := by rfl
  obtain ⟨_, _, _, hleads, _⟩ := tagsOf_agrees_with_search hroot hfile rfl htags
  exact ⟨htags, hleads⟩

end Library

/-- The tag of the root of a library. -/
def Tag.top : Tag := ⟨tagMark, by decide⟩

theorem Tag.ofPath_root {context : Context} {root : Path} {route : Route}
    (h : context.absolute root = .ok route) : ofPath context root root = ofRoute .here := by
  have hself : route.relativeTo route = .here := Route.relativeTo_below route []
  simp only [ofPath, h, hself]

namespace Context

theorem tagsOf_tray {root : Path} (hroot : tray.lookup root = .ok (.directory .root))
    (habsolute : root.isAbsolute = true) :
    tray.tagsOf root (Path.ofString "/0123456789") = .ok [.top] := by
  obtain ⟨_, _, hshort, _⟩ := walk_of_lookup hroot
  have hfile : tray.identity (Path.ofString "/0123456789") = .ok (.file ⟨0, .regular⟩) := by rfl
  have hvisits : tray.walkFiles root = .ok [(root, tray.files.root.entries)] := by
    have hcontents : tray.contentsOf root = .ok tray.files.root := by
      rw [contentsOf, directoryAt, hroot]
      rfl
    have hmarker : tray.files.root.visits root = [(root, tray.files.root.entries)] := rfl
    simp [walkFiles, hcontents, hmarker, hshort]
  have hlinks : linksAmong (.file ⟨0, .regular⟩) (root, tray.files.root.entries) ≠ [] :=
    List.cons_ne_nil _ _
  have htag : Tag.ofPath tray root root = .ok .top := by
    rw [Tag.ofPath_root (if_pos habsolute)]
    rfl
  simp [tagsOf_eq, hfile, hvisits, hlinks, tagsOfPaths, htag]

/-- A search for a tag of a file can give a path that names no file, because the path is
too long. -/
theorem search_of_tag_gives_path_too_long :
    tray.lookup fullRoot = .ok (.directory .root) ∧
    tray.identity (Path.ofString "/0123456789") = .ok (.file ⟨0, .regular⟩) ∧
    Library.tagsOf ⟨fullRoot⟩ tray (Path.ofString "/0123456789") = .ok [.top] ∧
    Library.search ⟨fullRoot⟩ tray (.dir Tag.top.text) = .ok [fullRoot.join digits.path] ∧
    tray.identity (fullRoot.join digits.path) = .error .nameTooLong := by
  have habsolute : fullRoot.isAbsolute = true := Path.isAbsolute_slashes (by decide)
  have hresolve : Library.resolveAsPath ⟨fullRoot⟩ Tag.top.text = fullRoot := by
    rfl
  refine ⟨lookup_fullRoot, by rfl, tagsOf_tray lookup_fullRoot habsolute, ?_,
    identity_fullRoot_join⟩
  rw [Library.search, search_tray (hresolve ▸ lookup_fullRoot), hresolve]

end Context

end LinkTags
