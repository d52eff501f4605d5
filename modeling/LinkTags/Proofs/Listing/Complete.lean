import LinkTags.Proofs.FileSystem.Entry
import LinkTags.Proofs.Listing.Agreement
import LinkTags.Proofs.Tag.RoundTrip

/-!
# What a listing leaves out

If the root of a library leads to a directory, a listing of a regular file fails for one of
three reasons: the walk comes to a directory by a path that is too long, the way from the
root to a directory that holds the file is not text, or the root is a relative path and the
working directory was removed. The last two are only about tags. Otherwise the listing gives
every link that the file has in a directory visited (`exists_links`), and the tag of every
such directory (`exists_tagsOf`).
-/

namespace LinkTags

/-! ## Ways that are text -/

/-- Names that are text make a way that is text. -/
theorem Path.toString?_intercalate_ne_none {names : List Name}
    (h : ∀ name ∈ names, name.path.toString? ≠ none) :
    toString? ⟨[slash].intercalate (names.map fun name => name.bytes)⟩ ≠ none := by
  induction names with
  | nil => exact Option.some_ne_none ""
  | cons name rest ih =>
      rw [List.forall_mem_cons] at h
      cases rest with
      | nil =>
          rw [List.map_singleton, List.intercalate_singleton]
          exact h.1
      | cons next others =>
          obtain ⟨text, htext⟩ := Option.ne_none_iff_exists'.1 h.1
          have hname : name.bytes = (ofString text).bytes :=
            (congrArg Path.bytes (ofString_of_toString? htext)).symm
          rw [List.map_cons, List.map_cons, List.intercalate_cons_cons, hname, List.append_assoc,
            ne_eq, toString?_append_eq_none_iff text]
          exact (toString?_append_eq_none_iff "/" _).not.2 (ih h.2)

/-- A directory below a root that has a route has a tag, which spells the way to it, if the
names on the way are text. -/
theorem Tag.exists_ofPath_through {context : Context} {root : Path} {route : Route}
    (hne : root.bytes ≠ []) (hroot : context.absolute root = .ok route) {names : List Name}
    (htext : ∀ name ∈ names, name.path.toString? ≠ none) :
    ∃ tag, ofPath context root (root.through names) = .ok tag ∧
      (Path.ofString tag.text).bytes =
        slash :: slash :: [slash].intercalate (names.map fun name => name.bytes) := by
  have hway := Route.bytes_toPath_below_here names
  have hpath : (Route.here.below names).toPath.toString? ≠ none := by
    rw [show (Route.here.below names).toPath = ⟨_⟩ from congrArg Path.mk hway]
    exact Path.toString?_intercalate_ne_none htext
  obtain ⟨tag, htag⟩ := exists_ofRoute_eq_ok_iff.2 hpath
  refine ⟨tag, ?_, ?_⟩
  · have hthrough : context.absolute (root.through names) = .ok (route.below names) := by
      rw [Context.absolute_through context hne, hroot]
      rfl
    rw [ofPath_eq hthrough hroot, Route.relativeTo_below, htag]
  · rw [ofRoute_eq_ok_iff.1 htag, hway]

namespace Context

variable {context : Context} {root file : Path} {place : Place} {inode : Inode}

/-! ## Walks that are too long -/

/-- A walk from the path, which leads to the directory, comes to a directory by a path that
is too long. -/
def WalkIsTooLong (context : Context) (root : Path) (place : Place) : Prop :=
  ∃ names, context.Walked place (place.below names) ∧ (root.through names).isTooLong = true

theorem any_isTooLong_iff (hplace : context.files.IsDirectory place.base) :
    ((context.contentsAt place).visits root).any (fun visit => visit.1.isTooLong) = true ↔
      context.WalkIsTooLong root place := by
  rw [Contents.visits_eq_map_ways, List.any_map, List.any_eq_true]
  constructor
  · rintro ⟨way, hway, hlong⟩
    exact ⟨way.1, (walked_iff_mem_ways hplace).2 ⟨way, hway, rfl⟩, hlong⟩
  · rintro ⟨names, hwalked, hlong⟩
    obtain ⟨way, hway, hbelow⟩ := (walked_iff_mem_ways hplace).1 hwalked
    obtain rfl := Place.below_inj hbelow
    exact ⟨way, hway, hlong⟩

section walkFiles

variable (hroot : context.lookup root = .ok (.directory place))

include hroot

theorem contentsOf_eq : context.contentsOf root = .ok (context.contentsAt place) := by
  rw [contentsOf, directoryAt, hroot]

theorem walkFiles_of_tooLong (h : context.WalkIsTooLong root place) :
    context.walkFiles root = .error .nameTooLong := by
  rw [walkFiles, contentsOf_eq hroot]
  exact if_pos ((any_isTooLong_iff (isDirectory_of_lookup hroot)).2 h)

theorem walkFiles_of_short (h : ¬context.WalkIsTooLong root place) :
    context.walkFiles root =
      .ok ((context.contentsAt place).ways.map fun way => (root.through way.1, way.2)) := by
  rw [walkFiles, contentsOf_eq hroot, ← Contents.visits_eq_map_ways]
  exact if_neg ((any_isTooLong_iff (isDirectory_of_lookup hroot)).not.2 h)

/-! ## Links -/

theorem links_of_tooLong {id : FileId} (hfile : context.identity file = .ok id)
    (h : context.WalkIsTooLong root place) : context.links root file = .error .nameTooLong := by
  rw [links, hfile, walkFiles_of_tooLong hroot h]

/-- The links listed are the entries of the file in the directories visited. -/
theorem exists_links (hfile : context.identity file = .ok (.file inode))
    (hregular : inode.kind = .regular) (h : ¬context.WalkIsTooLong root place) :
    ∃ found, context.links root file = .ok found ∧ ∀ path, path ∈ found ↔
      ∃ names name, context.Walked place (place.below names) ∧
        ⟨name, .file inode⟩ ∈ (context.contentsAt (place.below names)).entries ∧
        path = (root.through names).join name.path := by
  have hplace := isDirectory_of_lookup hroot
  rw [links, hfile, walkFiles_of_short hroot h]
  refine ⟨_, rfl, ?_⟩
  intro path
  simp only [List.mem_flatMap, List.mem_map, linksAmong, List.mem_filter, decide_eq_true_eq,
    mem_regularFiles]
  constructor
  · rintro ⟨_, ⟨way, hway, rfl⟩, _, ⟨⟨name, other, hentry, _, rfl⟩, hid⟩, rfl⟩
    cases hid
    rw [entries_of_mem_ways hplace hway] at hentry
    exact ⟨way.1, name, (walked_iff_mem_ways hplace).2 ⟨way, hway, rfl⟩, hentry, rfl⟩
  · rintro ⟨names, name, hwalked, hentry, rfl⟩
    obtain ⟨way, hway, hbelow⟩ := (walked_iff_mem_ways hplace).1 hwalked
    obtain rfl := Place.below_inj hbelow
    rw [← entries_of_mem_ways hplace hway] at hentry
    exact ⟨_, ⟨way, hway, rfl⟩, _, ⟨⟨name, inode, hentry, hregular, rfl⟩, rfl⟩, rfl⟩

/-! ## Tags -/

theorem tagsOf_of_tooLong {id : FileId} (hfile : context.identity file = .ok id)
    (h : context.WalkIsTooLong root place) :
    context.tagsOf root file = .error (.filesystem .nameTooLong) := by
  rw [tagsOf_eq, hfile, walkFiles_of_tooLong hroot h]

/-- The tags listed are those of the ways to the directories that hold the file. -/
theorem tagsOf_of_short (hfile : context.identity file = .ok (.file inode))
    (h : ¬context.WalkIsTooLong root place) :
    context.tagsOf root file =
      context.tagsOfPaths root ((context.waysTo root place inode).map root.through) := by
  rw [tagsOf_eq, hfile, walkFiles_of_short hroot h, ← map_through_waysTo]

end walkFiles

/-- Several paths have tags if each of them has one. -/
theorem exists_tagsOfPaths {paths : List Path}
    (h : ∀ path ∈ paths, ∃ tag, Tag.ofPath context root path = .ok tag) :
    ∃ tags, context.tagsOfPaths root paths = .ok tags ∧
      ∀ path ∈ paths, ∃ tag ∈ tags, Tag.ofPath context root path = .ok tag := by
  induction paths with
  | nil => exact ⟨[], rfl, List.forall_mem_nil _⟩
  | cons path rest ih =>
      rw [List.forall_mem_cons] at h
      obtain ⟨⟨tag, htag⟩, hrest⟩ := h
      obtain ⟨tags, htags, hall⟩ := ih hrest
      refine ⟨tag :: tags, by rw [tagsOfPaths, htag, htags], ?_⟩
      rw [List.forall_mem_cons]
      refine ⟨⟨tag, List.mem_cons_self, htag⟩, ?_⟩
      intro other hother
      obtain ⟨found, hfound, hof⟩ := hall other hother
      exact ⟨found, List.mem_cons_of_mem tag hfound, hof⟩

/-- The ways to the directories that hold the file are text. -/
def HoldersAreText (context : Context) (place : Place) (inode : Inode) : Prop :=
  ∀ names, context.Walked place (place.below names) → context.Holds (place.below names) inode →
    ∀ name ∈ names, name.path.toString? ≠ none

/-- The ways to all directories that can be walked to are text. -/
def WaysAreText (context : Context) (place : Place) : Prop :=
  ∀ names, context.Walked place (place.below names) → ∀ name ∈ names, name.path.toString? ≠ none

theorem waysAreText_of_ways (hplace : context.files.IsDirectory place.base)
    (h : ∀ way ∈ (context.contentsAt place).ways, ∀ name ∈ way.1, name.path.toString? ≠ none) :
    context.WaysAreText place := by
  intro names hwalked
  obtain ⟨way, hway, hbelow⟩ := (walked_iff_mem_ways hplace).1 hwalked
  obtain rfl := Place.below_inj hbelow
  exact h way hway

theorem WaysAreText.holders (h : context.WaysAreText place) : context.HoldersAreText place inode :=
  fun names hwalked _ => h names hwalked

theorem holdersAreText_of_ways (hplace : context.files.IsDirectory place.base)
    (h : ∀ way ∈ (context.contentsAt place).ways, ∀ name ∈ way.1, name.path.toString? ≠ none) :
    context.HoldersAreText place inode :=
  (waysAreText_of_ways hplace h).holders

section tagsOf

variable (hroot : context.lookup root = .ok (.directory place))
  (hfile : context.identity file = .ok (.file inode)) (hregular : inode.kind = .regular)
  (h : ¬context.WalkIsTooLong root place)

include hroot hfile hregular h

/-- Each directory visited that holds the file has its tag listed, which spells the way to
it and leads there. -/
theorem exists_tagsOf {route : Route} (habsolute : context.absolute root = .ok route)
    (htext : context.HoldersAreText place inode) :
    ∃ tags, context.tagsOf root file = .ok tags ∧
      ∀ names, context.Walked place (place.below names) →
        context.Holds (place.below names) inode →
        ∃ tag ∈ tags, (Path.ofString tag.text).bytes =
            slash :: slash :: [slash].intercalate (names.map fun name => name.bytes) ∧
          context.lookup (resolveAsPath root tag.text) =
            .ok (.directory (place.below names)) := by
  obtain ⟨_, hne, _, _⟩ := walk_of_lookup hroot
  have hplace := isDirectory_of_lookup hroot
  have hways : ∀ path ∈ (context.waysTo root place inode).map root.through,
      ∃ tag, Tag.ofPath context root path = .ok tag := by
    intro path hpath
    obtain ⟨names, hnames, rfl⟩ := List.mem_map.1 hpath
    obtain ⟨hwalked, hholds⟩ := (mem_waysTo hplace hregular).1 hnames
    obtain ⟨tag, htag, _⟩ := Tag.exists_ofPath_through hne habsolute (htext names hwalked hholds)
    exact ⟨tag, htag⟩
  obtain ⟨tags, htags, hall⟩ := exists_tagsOfPaths hways
  rw [tagsOf_of_short hroot hfile h]
  refine ⟨tags, htags, ?_⟩
  intro names hwalked hholds
  have hnames : names ∈ context.waysTo root place inode :=
    (mem_waysTo hplace hregular).2 ⟨hwalked, hholds⟩
  obtain ⟨tag, hmem, htag⟩ := hall _ (List.mem_map_of_mem hnames)
  obtain ⟨other, hother, hspelled⟩ :=
    Tag.exists_ofPath_through hne habsolute (htext names hwalked hholds)
  cases htag.symm.trans hother
  refine ⟨tag, hmem, hspelled, ?_⟩
  obtain ⟨way, hway, hbelow⟩ := (walked_iff_mem_ways hplace).1 hwalked
  obtain rfl := Place.below_inj hbelow
  rw [Tag.resolveAsPath_of_ofPath_through hne htag]
  exact lookup_of_mem_ways hroot hway fun hlong => h ⟨way.1, hwalked, hlong⟩

/-- There are no tags below a root that has no route. -/
theorem tagsOf_of_absolute_error {e : FileError} (habsolute : context.absolute root = .error e)
    {names : List Name} (hwalked : context.Walked place (place.below names))
    (hholds : context.Holds (place.below names) inode) :
    context.tagsOf root file = .error (.filesystem e) := by
  obtain ⟨_, hne, _, _⟩ := walk_of_lookup hroot
  have hplace := isDirectory_of_lookup hroot
  have hnames : names ∈ context.waysTo root place inode :=
    (mem_waysTo hplace hregular).2 ⟨hwalked, hholds⟩
  obtain ⟨first, rest, hways⟩ := List.exists_cons_of_ne_nil (List.ne_nil_of_mem hnames)
  rw [tagsOf_of_short hroot hfile h, hways, List.map_cons, tagsOfPaths, Tag.ofPath,
    absolute_through context hne, habsolute]
  rfl

end tagsOf

end Context

/-! ## A library that is too deep -/

/-- Directories `A`, each in the one before. -/
def nest : Nat → Contents
  | 0 => .nil
  | depth + 1 => .directory Context.nameA (nest depth) .nil

theorem sorted_nest (depth : Nat) : (nest depth).Sorted := by
  induction depth with
  | zero => trivial
  | succ depth ih => exact ⟨List.forall_mem_nil _, ih, trivial⟩

theorem reach?_nest (depth rest : Nat) :
    (nest (depth + rest)).reach? (List.replicate depth Context.nameA) =
      some (.directory (nest rest)) := by
  induction depth with
  | zero =>
      rw [Nat.zero_add]
      rfl
  | succ depth ih =>
      rw [Nat.succ_add]
      simpa [nest, Contents.reach?, Contents.find?, List.replicate_succ] using ih

theorem eq_of_mem_waysBelow_nest {depth : Nat} {way : List Name × List Entry}
    (h : way ∈ (nest depth).waysBelow) : ∀ name ∈ way.1, name = Context.nameA := by
  induction depth generalizing way with
  | zero => contradiction
  | succ depth ih =>
      have hopen : ¬Context.nameA.path = marker := by decide
      rw [nest, Contents.waysBelow, if_neg hopen, Contents.waysBelow, List.append_nil] at h
      rcases List.mem_cons.1 h with rfl | hbelow
      · exact List.forall_mem_singleton.2 rfl
      · obtain ⟨way, hway, rfl⟩ := List.mem_map.1 hbelow
        exact List.forall_mem_cons.2 ⟨rfl, ih hway⟩

namespace Context

/-- A library with the file `0123456789` in its root, and with more directories in each other
than there is room for in a path. -/
def shaft : Context where
  files := {
    root :=
      .directory markerName .nil (.file digits ⟨0, .regular⟩ (nest 4096))
    sorted := by
      have hnames : (nest 4096).names = [nameA] := rfl
      refine ⟨?_, trivial, ?_, sorted_nest 4096⟩
      · rw [Contents.names, hnames]
        decide
      · rw [hnames]
        decide }
  cwd := .root
  housed := rfl

theorem shaft_waysAreText : shaft.WaysAreText .root := by
  have hroot : shaft.files.IsDirectory [] := shaft.housed
  have hways : (shaft.contentsAt .root).waysBelow = (nest 4096).waysBelow := rfl
  apply waysAreText_of_ways hroot
  rw [Contents.ways, hways, List.forall_mem_cons]
  refine ⟨List.forall_mem_nil _, ?_⟩
  intro way hway name hname
  rw [eq_of_mem_waysBelow_nest hway name hname]
  decide

theorem shaft_holdersAreText (inode : Inode) : shaft.HoldersAreText .root inode :=
  shaft_waysAreText.holders

/-- The directories of the shaft go down by one name. -/
theorem shaft_walked (depth rest : Nat) (h : depth + rest = 4096) :
    shaft.Walked .root (Place.below .root (List.replicate depth nameA)) := by
  have hroot : shaft.files.IsDirectory [] := shaft.housed
  refine (walked_live_iff hroot).2 ⟨_, ?_, ?_, rfl⟩
  · intro name hname
    rw [List.eq_of_mem_replicate hname]
    decide
  · rw [List.append_nil, List.reverse_replicate]
    cases depth with
    | zero => exact hroot
    | succ depth =>
        have hreach := reach?_nest (depth + 1) rest
        rw [h] at hreach
        rw [FileSystem.isDirectory_iff_exists_inside?]
        refine ⟨nest rest, FileSystem.inside?_eq_some_iff.2 ?_⟩
        rw [List.reverse_replicate]
        exact hreach

/-- The deepest directory of the shaft is walked to by a path that is too long. -/
theorem shaft_walkIsTooLong {root : Path} (hne : root.bytes ≠ []) :
    shaft.WalkIsTooLong root .root := by
  refine ⟨List.replicate 4096 nameA, shaft_walked 4096 0 rfl, ?_⟩
  have hlength := Path.length_add_length_le_through hne (List.replicate 4096 nameA)
  rw [List.length_replicate] at hlength
  rw [Path.isTooLong, decide_eq_true_eq, pathLimit]
  omega

end Context

end LinkTags
