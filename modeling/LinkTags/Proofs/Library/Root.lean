import LinkTags.Proofs.FileSystem.There
import LinkTags.Proofs.Listing.Complete
import LinkTags.Proofs.Run.Safety

/-!
# Roots of libraries

A path that is not empty and names a marker leads to the directory that holds the marker
(`exists_lookup_of_isLibrary`), however it is spelled. The path that a library was just made at
names its marker (`isLibrary_of_initLibrary`). The tag `//` stands for this directory, in a
search and in a listing (`top_stands_for_root`).
-/

namespace LinkTags

namespace Context

variable {context after : Context} {path : Path}

/-- A path that is not empty and names a marker leads to the directory that holds it. -/
theorem exists_lookup_of_isLibrary (hne : path.bytes ≠ []) (h : context.isLibrary path = true) :
    ∃ base, context.lookup path = .ok (.directory (.live base)) ∧
      context.spot (path.join marker) = .ok (base, markerName) := by
  obtain ⟨place, hmarker⟩ := isDirectory_iff.1 h
  rw [← markerName_path] at hmarker ⊢
  obtain ⟨base, hbase⟩ := exists_lookup_of_join hne hmarker
  obtain ⟨⟨_, _, hshort⟩, _⟩ := walkFrom_eq_ok_iff.1 hmarker
  exact ⟨base, hbase, spot_join_name hbase hshort⟩

/-- A path names a marker when a library was made at it. -/
theorem isLibrary_of_initLibrary (h : context.initLibrary path = .ok after) :
    after.isLibrary path = true := by
  obtain ⟨base, hspot, hmade⟩ := addNode_of_initLibrary h
  obtain ⟨_, _, hnode⟩ := addNode_eq_ok hmade
  have hmarker : after.files.IsDirectory (markerName :: base) := by
    rw [FileSystem.IsDirectory, hnode, if_pos rfl]
  have hafter := spot_mono (within_of_addNode hmade) hspot
  exact isDirectory_iff.2 ⟨_, walkFrom_directory_of_spot hafter hmarker true⟩

end Context

/-! ## The tag of the root -/

theorem resolveAsPath_top (root : Path) : resolveAsPath root Tag.top.text = root := by
  have hway : Tag.top.way.bytes = [] := by decide
  rw [resolveAsPath, dif_pos Tag.top.marked]
  exact if_pos hway

/-- A tag that is the mark and nothing else is that of the root. -/
theorem Tag.eq_top {tag : Tag} (h : (Path.ofString tag.text).bytes = [slash, slash]) :
    tag = .top := by
  obtain ⟨text, _⟩ := tag
  have htext : text = tagMark := Path.ofString_inj (congrArg Path.mk h)
  cases htext
  rfl

namespace Library

variable {library : Library} {context : Context} {path : Path}

/-- The library is at the path: it was opened there, or it was just made there. -/
def IsAt (library : Library) (context : Context) (path : Path) : Prop :=
  open? context path = some library ∨ ∃ before, init before path = .ok (library, context)

theorem IsAt.eq (h : library.IsAt context path) : library = ⟨path⟩ := by
  rcases h with hopen | ⟨before, hinit⟩
  · rw [open?] at hopen
    split at hopen
    · exact (Option.some.inj hopen).symm
    · contradiction
  · rw [init] at hinit
    split at hinit
    · contradiction
    · cases hinit
      rfl

theorem IsAt.isLibrary (h : library.IsAt context path) :
    context.isLibrary path = true := by
  rcases h with hopen | ⟨before, hinit⟩
  · rw [open?] at hopen
    split at hopen
    next hmarked => exact hmarked
    · contradiction
  · rw [init] at hinit
    split at hinit
    · contradiction
    next after hmade =>
      cases hinit
      exact Context.isLibrary_of_initLibrary hmade

variable {base : Location} {inode : Inode}

/-- A search of the root gives a path to each regular file directly in it. -/
theorem exists_search_top (hroot : context.lookup path = .ok (.directory (.live base)))
    {entry : Name} (hentry : context.files.node? (entry :: base) = some (.file inode))
    (hregular : inode.kind = .regular) :
    ∃ paths other, search ⟨path⟩ context (.dir Tag.top.text) = .ok paths ∧
      context.files.node? (other :: base) = some (.file inode) ∧
      path.join other.path ∈ paths := by
  have hresolve : resolveAsPath ⟨path⟩ Tag.top.text = path := resolveAsPath_top path
  have hholds : context.HoldsFile (resolveAsPath ⟨path⟩ Tag.top.text) base entry inode := by
    rw [hresolve]
    exact ⟨hroot, hentry, hregular⟩
  obtain ⟨paths, hpaths, location, other, hother, hmem⟩ := Context.search_of_holdsFile hholds
  rw [hresolve] at hother hmem
  cases hroot.symm.trans hother.leads
  exact ⟨paths, other, hpaths, hother.node, hmem⟩

section Listing

variable {file : Path} (hroot : context.lookup path = .ok (.directory (.live base)))
  (hfile : context.identity file = .ok (.file inode)) (hregular : inode.kind = .regular)
  (hshort : ¬context.WalkIsTooLong path (.live base))

include hroot hfile hregular hshort

/-- The links listed of a file include those in the root. -/
theorem exists_links_top : ∃ found, links ⟨path⟩ context file = .ok found ∧
    ∀ name, context.files.node? (name :: base) = some (.file inode) →
      path.join name.path ∈ found := by
  obtain ⟨found, hfound, hmem⟩ := Context.exists_links hroot hfile hregular hshort
  refine ⟨found, hfound, ?_⟩
  intro name hname
  have hin : ⟨name, .file inode⟩ ∈ (context.contentsAt (.live base)).entries :=
    Context.mem_entries_contentsAt.2 ⟨rfl, hname⟩
  exact (hmem _).2 ⟨[], name, .start, hin, rfl⟩

/-- The tags listed of a file in the root include that of the root. -/
theorem exists_tagsOf_top {entry : Name}
    (hentry : context.files.node? (entry :: base) = some (.file inode))
    (habsolute : path.isAbsolute = true ∨ context.cwd.lost = 0)
    (htext : context.HoldersAreText (.live base) inode) :
    ∃ tags, tagsOf ⟨path⟩ context file = .ok tags ∧ .top ∈ tags := by
  obtain ⟨route, hroute⟩ : ∃ route, context.absolute path = .ok route := by
    unfold Context.absolute
    split
    · exact ⟨_, rfl⟩
    next hrelative =>
      rw [if_pos (habsolute.resolve_left hrelative)]
      exact ⟨_, rfl⟩
  obtain ⟨tags, htags, hall⟩ := Context.exists_tagsOf hroot hfile hregular hshort hroute htext
  obtain ⟨tag, hmem, hspelled, _⟩ := hall [] .start ⟨rfl, entry, hentry⟩
  obtain rfl := Tag.eq_top hspelled
  exact ⟨tags, htags, hmem⟩

end Listing

/-- A library is opened or made at a path that is not empty. Then the path leads to the
directory that holds the marker, and `//` stands for this directory. Of every regular file
directly in it, a search gives a path, which names the file unless it is too long. A listing
gives its links there and the tag `//`, unless the walk comes to a directory by a path that
is too long. For tags, the ways to the directories that hold the file have to be text, and
a relative path needs a working directory that was not removed. -/
theorem top_stands_for_root (hne : path.bytes ≠ []) (h : library.IsAt context path) :
    ∃ base, context.lookup path = .ok (.directory (.live base)) ∧
      context.spot library.metadata = .ok (base, markerName) ∧
      ∀ entry inode, context.files.node? (entry :: base) = some (.file inode) →
        inode.kind = .regular →
        (∃ paths other, library.search context (.dir Tag.top.text) = .ok paths ∧
          context.files.node? (other :: base) = some (.file inode) ∧
          path.join other.path ∈ paths ∧
          context.identity (path.join other.path) =
            if (path.join other.path).isTooLong = true then .error .nameTooLong
            else .ok (.file inode)) ∧
        ∀ file, context.identity file = .ok (.file inode) →
          (context.WalkIsTooLong path (.live base) →
            library.links context file = .error .nameTooLong ∧
              library.tagsOf context file = .error (.filesystem .nameTooLong)) ∧
          (¬context.WalkIsTooLong path (.live base) →
            (∃ found, library.links context file = .ok found ∧
              ∀ name, context.files.node? (name :: base) = some (.file inode) →
                path.join name.path ∈ found) ∧
            (path.isAbsolute = true ∨ context.cwd.lost = 0 →
              context.HoldersAreText (.live base) inode →
              ∃ tags, library.tagsOf context file = .ok tags ∧ .top ∈ tags) ∧
            (path.isAbsolute = false → context.cwd.lost ≠ 0 →
              library.tagsOf context file = .error (.filesystem .notFound))) := by
  obtain rfl := h.eq
  obtain ⟨base, hroot, hspot⟩ := Context.exists_lookup_of_isLibrary hne h.isLibrary
  refine ⟨base, hroot, hspot, ?_⟩
  intro entry inode hentry hregular
  constructor
  · obtain ⟨paths, other, hpaths, hother, hmem⟩ := exists_search_top hroot hentry hregular
    refine ⟨paths, other, hpaths, hother, hmem, ?_⟩
    rw [Context.identity, Context.lookupEntry_join_file hroot hother]
    by_cases hlong : (path.join other.path).isTooLong = true
    · rw [if_pos hlong, if_pos hlong]
    · rw [if_neg hlong, if_neg hlong]
      rfl
  · intro file hfile
    constructor
    · intro hlong
      exact ⟨Context.links_of_tooLong hroot hfile hlong,
        Context.tagsOf_of_tooLong hroot hfile hlong⟩
    · intro hshort
      refine ⟨exists_links_top hroot hfile hregular hshort, ?_, ?_⟩
      · exact exists_tagsOf_top hroot hfile hregular hshort hentry
      · intro hrelative hlost
        have hnone : context.absolute path = .error .notFound := by
          rw [Context.absolute, hrelative, if_neg Bool.false_ne_true, if_neg hlost]
        have hstart : context.Walked (.live base) (Place.below (.live base) []) := .start
        exact Context.tagsOf_of_absolute_error hroot hfile hregular hshort hnone hstart
          ⟨rfl, entry, hentry⟩

end Library

namespace Context

/-- The path of the file in the tray. -/
def trayFile : Path := .ofString "/0123456789"

/-- The root of the tray may be spelled with a step that stays. -/
theorem tray_top_stands_for_root :
    (∃ paths other, Library.search ⟨.ofString "/."⟩ tray (.dir Tag.top.text) = .ok paths ∧
      tray.files.node? [other] = some (.file ⟨0, .regular⟩) ∧
      (Path.ofString "/.").join other.path ∈ paths) ∧
    (∃ found, Library.links ⟨.ofString "/."⟩ tray trayFile = .ok found ∧
      .ofString "/./0123456789" ∈ found) ∧
    ∃ tags, Library.tagsOf ⟨.ofString "/."⟩ tray trayFile = .ok tags ∧ .top ∈ tags := by
  have hat : Library.IsAt ⟨.ofString "/."⟩ tray (.ofString "/.") := .inl rfl
  have hentry : tray.files.node? [digits] = some (.file ⟨0, .regular⟩) := by decide
  have hfile : tray.identity trayFile = .ok (.file ⟨0, .regular⟩) := by rfl
  have hplace : tray.files.IsDirectory Place.root.base := tray.housed
  have hshort : ¬tray.WalkIsTooLong (.ofString "/.") .root := by
    rw [← any_isTooLong_iff hplace]
    decide
  have htext : tray.HoldersAreText .root ⟨0, .regular⟩ :=
    holdersAreText_of_ways hplace (by decide)
  obtain ⟨base, hroot, _, hfiles⟩ := Library.top_stands_for_root (by decide) hat
  have hlookup : tray.lookup (.ofString "/.") = .ok (.directory .root) := by rfl
  cases hroot.symm.trans hlookup
  obtain ⟨⟨paths, other, hpaths, hother, hmem, _⟩, hlistings⟩ := hfiles digits _ hentry rfl
  obtain ⟨_, hlisted⟩ := hlistings trayFile hfile
  obtain ⟨⟨found, hfound, hlinks⟩, htags, _⟩ := hlisted hshort
  exact ⟨⟨paths, other, hpaths, hother, hmem⟩, ⟨found, hfound, hlinks digits hentry⟩,
    htags (.inl rfl) htext⟩

/-- The tray, seen from a working directory that was removed from it. -/
def emptied : Context := ⟨tray.files, ⟨[], 1⟩, rfl⟩

/-- There is room for the marker in the full root. -/
theorem not_isTooLong_fullRoot_join_marker : ¬(fullRoot.join markerName.path).isTooLong = true := by
  have hlength : fullRoot.bytes.length = 4086 := List.length_replicate
  have hne : fullRoot.bytes ≠ [] := List.ne_nil_of_length_pos (by omega)
  have hlead := Path.length_lead_le fullRoot
  have hmarker : markerName.bytes.length = 8 := rfl
  rw [Path.isTooLong, Path.bytes_join_component hne, decide_eq_true_eq, List.length_append,
    pathLimit]
  omega

theorem isLibrary_fullRoot : tray.isLibrary fullRoot = true := by
  have hmarker : tray.files.IsDirectory [markerName] := by decide
  rw [isLibrary, ← markerName_path]
  exact isDirectory_iff.2
    ⟨_, lookup_join_directory lookup_fullRoot hmarker not_isTooLong_fullRoot_join_marker⟩

/-- The path names a regular file that is in one directory with the marker of the library. -/
def NamesBesideMarker (context : Context) (library : Library) (file : Path) : Prop :=
  ∃ base name inode, context.spot library.metadata = .ok (base, markerName) ∧
    context.lookupEntry file = .ok (.file base name inode) ∧ inode.kind = .regular

/-- There is a library at the empty path, but nothing is found there. There is one above a
working directory that was removed, but its files have no tags. From a root that leaves no
room for a name, a search gives a path that names no file. Nothing is listed in a library
that is too deep. -/
theorem top_can_fail :
    (Library.open? tray ⟨[]⟩ = some ⟨⟨[]⟩⟩ ∧ tray.NamesBesideMarker ⟨⟨[]⟩⟩ trayFile ∧
      Library.search ⟨⟨[]⟩⟩ tray (.dir Tag.top.text) = .error (.notFound ⟨[]⟩) ∧
      Library.links ⟨⟨[]⟩⟩ tray trayFile = .error .notFound) ∧
    (Library.open? emptied (.ofString "..") = some ⟨.ofString ".."⟩ ∧
      emptied.NamesBesideMarker ⟨.ofString ".."⟩ trayFile ∧
      Library.links ⟨.ofString ".."⟩ emptied trayFile = .ok [.ofString "../0123456789"] ∧
      Library.tagsOf ⟨.ofString ".."⟩ emptied trayFile = .error (.filesystem .notFound)) ∧
    (Library.open? tray fullRoot = some ⟨fullRoot⟩ ∧
      tray.NamesBesideMarker ⟨fullRoot⟩ trayFile ∧
      Library.search ⟨fullRoot⟩ tray (.dir Tag.top.text) = .ok [fullRoot.join digits.path] ∧
      tray.identity (fullRoot.join digits.path) = .error .nameTooLong) ∧
    Library.open? shaft (.ofString "/") = some ⟨.ofString "/"⟩ ∧
      shaft.NamesBesideMarker ⟨.ofString "/"⟩ trayFile ∧
      Library.links ⟨.ofString "/"⟩ shaft trayFile = .error .nameTooLong := by
  refine ⟨⟨rfl, ⟨_, _, _, rfl, rfl, rfl⟩, rfl, rfl⟩, ⟨rfl, ⟨_, _, _, rfl, rfl, rfl⟩, rfl, rfl⟩,
    ?_, rfl, ⟨_, _, _, rfl, rfl, rfl⟩, ?_⟩
  · have hspot : tray.spot (Library.metadata ⟨fullRoot⟩) = .ok ([], markerName) := by
      rw [Library.metadata, ← markerName_path]
      exact spot_join_name lookup_fullRoot not_isTooLong_fullRoot_join_marker
    have hresolve : Library.resolveAsPath ⟨fullRoot⟩ Tag.top.text = fullRoot :=
      resolveAsPath_top fullRoot
    have hsearch : Library.search ⟨fullRoot⟩ tray (.dir Tag.top.text) =
        .ok [fullRoot.join digits.path] := by
      rw [Library.search, search_tray (hresolve ▸ lookup_fullRoot), hresolve]
    exact ⟨if_pos isLibrary_fullRoot, ⟨_, _, _, hspot, rfl, rfl⟩, hsearch,
      identity_fullRoot_join⟩
  · have hroot : shaft.lookup (.ofString "/") = .ok (.directory .root) := by rfl
    have hfile : shaft.identity trayFile = .ok (.file ⟨0, .regular⟩) := by rfl
    exact links_of_tooLong hroot hfile (shaft_walkIsTooLong (by decide))

end Context

end LinkTags
