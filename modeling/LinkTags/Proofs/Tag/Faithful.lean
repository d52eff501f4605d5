import LinkTags.Proofs.FileSystem.Straight
import LinkTags.Proofs.Listing.Agreement
import LinkTags.Proofs.Tag.RoundTrip

/-!
# Tags lead where their paths lead

A tag is made of texts alone. If no symbolic link is followed on the way to the root of the
library and to a directory, then the tag of the directory leads to it from the root, and so
does the path in normal form, unless the path that is looked up is too long
(`tag_leads_to_directory`). The tags in a directory lead to its subdirectories in this way,
each to its own.

## Implementation notes

The path of a subdirectory may be too long to be looked up while its tag is not. So what
is known of a path that a tag is made of is where its steps lead (`FileSystem.Straight`),
which does not depend on its length.
-/

namespace LinkTags

namespace Route

/-- The way from one directory to another, in the names of the tree. -/
theorem exists_relativeTo_ofLocation (location base : Location) :
    ∃ common rest left : List Name,
      location = rest.reverse ++ common ∧ base = left ++ common ∧
        (ofLocation location).relativeTo (ofLocation base) =
          ⟨false, left.length, (rest.map Name.toComponent).reverse, nofun⟩ := by
  have hinjective (x y : Name) : x.toComponent = y.toComponent → x = y := Name.toComponent_inj
  obtain ⟨common, hlocation, hbase, _⟩ :=
    exists_common (ofLocation location).names.reverse (ofLocation base).names.reverse
  unfold relativeTo
  generalize dropCommon (ofLocation location).names.reverse (ofLocation base).names.reverse =
    parts at hlocation hbase ⊢
  obtain ⟨components, others⟩ := parts
  simp only [ofLocation, fromRoot, ← List.map_reverse] at hlocation hbase
  obtain ⟨shared, rest, hrest, rfl, rfl⟩ := List.map_eq_append_iff.1 hlocation
  obtain ⟨shared', left, hleft, hshared, rfl⟩ := List.map_eq_append_iff.1 hbase
  obtain rfl : shared' = shared := (List.map_inj_right hinjective).1 hshared
  refine ⟨shared'.reverse, rest, left.reverse, ?_, ?_, ?_⟩
  · rw [← List.reverse_append, ← hrest, List.reverse_reverse]
  · rw [← List.reverse_append, ← hleft, List.reverse_reverse]
  · simp

theorem zero_not_mem_bytes_toPath {route : Route} {names : List Name}
    (h : route.names = names.map Name.toComponent) : (0 : UInt8) ∉ route.toPath.bytes := by
  apply not_mem_bytes_toPath (by decide) (by decide)
  intro component hcomponent
  rw [h] at hcomponent
  obtain ⟨name, _, rfl⟩ := List.mem_map.1 hcomponent
  exact name.nonzero

end Route

namespace Context

variable {context : Context} {root path : Path} {base location : Location} {tag : Tag}

/-- The steps of a written route go straight if its names are those of directories. -/
theorem straight_toPath {route : Route} {common rest left : List Name}
    (hups : route.ups = left.length)
    (hnames : route.names = (rest.map Name.toComponent).reverse)
    (h : context.files.IsDirectory (rest.reverse ++ common)) :
    context.files.Straight (left ++ common) route.toPath.steps (rest.reverse ++ common) := by
  obtain ⟨count, hsteps⟩ := route.exists_steps_toPath
  rw [hsteps, hups, hnames, List.reverse_reverse, List.map_map]
  apply (FileSystem.Straight.stays _ count).append
  exact (FileSystem.Straight.climb left common).append (.descend h)

/-- The path that writes the route to a directory leads there, unless it is too long. -/
theorem lookup_toPath_ofLocation (hcwd : context.cwd.lost = 0)
    (h : context.files.IsDirectory location) :
    context.lookup (Route.ofLocation location).toPath =
      if (Route.ofLocation location).toPath.isTooLong = true then .error .nameTooLong
      else .ok (.directory (.live location)) := by
  have hlocation : location.reverse.reverse ++ [] = location := by simp
  have hnames : (Route.ofLocation location).names =
      (location.reverse.map Name.toComponent).reverse := by
    simp [Route.ofLocation, Route.fromRoot]
  apply lookup_of_straight hcwd
  · exact Route.zero_not_mem_bytes_toPath rfl
  · simp [Route.toPath, Route.ofLocation, Route.fromRoot]
  · rw [← hlocation] at h
    have hups : (Route.ofLocation location).ups = ([] : List Name).length := rfl
    have hstraight := straight_toPath hups hnames h
    rw [hlocation] at hstraight
    rw [start, Route.isAbsolute_toPath]
    exact hstraight

/-- The way that a tag spells goes straight from the root to the directory. -/
theorem straight_way (hcwd : context.cwd.lost = 0)
    (hbase : context.files.Straight (context.start root) root.steps base)
    (hpath : context.files.Straight (context.start path) path.steps location)
    (hlocation : context.files.IsDirectory location)
    (htag : Tag.ofPath context root path = .ok tag) :
    (0 : UInt8) ∉ tag.way.bytes ∧ context.files.Straight base tag.way.steps location := by
  rw [Tag.ofPath_eq (absolute_of_straight hcwd hpath) (absolute_of_straight hcwd hbase)] at htag
  have hway := Tag.way_of_ofRoute rfl htag
  obtain ⟨common, rest, left, rfl, rfl, hroute⟩ :=
    Route.exists_relativeTo_ofLocation location base
  rw [hroute] at hway
  rw [hway]
  constructor
  · exact Route.zero_not_mem_bytes_toPath List.map_reverse.symm
  · exact straight_toPath rfl rfl hlocation

/-- A tag leads to the directory of the path that it was made from, unless the path that it
stands for is too long. -/
theorem lookup_toPath_of_straight (hcwd : context.cwd.lost = 0)
    (hroot : context.lookup root = .ok (.directory (.live base)))
    (hbase : context.files.Straight (context.start root) root.steps base)
    (hpath : context.files.Straight (context.start path) path.steps location)
    (hlocation : context.files.IsDirectory location)
    (htag : Tag.ofPath context root path = .ok tag) :
    context.lookup (tag.toPath root) =
      if (tag.toPath root).isTooLong = true then .error .nameTooLong
      else .ok (.directory (.live location)) := by
  obtain ⟨hzero, hne, _, _⟩ := walk_of_lookup hroot
  obtain ⟨hwayZero, hstraight⟩ := straight_way hcwd hbase hpath hlocation htag
  have hrelative := tag.isAbsolute_way
  by_cases hempty : tag.way.bytes = []
  · rw [Path.steps_of_empty hempty] at hstraight
    rw [Tag.toPath, if_pos hempty]
    exact lookup_of_straight hcwd hzero hne (hbase.append hstraight).of_append_stay
  · rw [Tag.toPath, if_neg hempty]
    apply lookup_of_straight hcwd
    · exact Path.not_mem_bytes_join hne hrelative hzero (by decide) hwayZero
    · rw [Path.bytes_join hne hrelative]
      exact List.append_ne_nil_of_right_ne_nil _ hempty
    · exact straight_join hne hrelative hbase hstraight

/-! ## The tags in a directory -/

theorem isDirectory_of_mem_subdirectories {entry : Entry}
    (h : entry ∈ subdirectories (context.contentsAt (.live location)).entries) :
    context.files.IsDirectory (entry.name :: location) := by
  obtain ⟨hentry, hkind⟩ := List.mem_filter.1 h
  obtain ⟨_, hnode⟩ := mem_entries_contentsAt.1 hentry
  simp only [decide_eq_true_eq] at hkind
  rw [FileSystem.IsDirectory, ← hkind.1]
  exact hnode

/-- The tags in a directory are those of the ways to its subdirectories. -/
theorem tagsIn_eq_ok {tags : List Tag}
    (hpath : context.lookup path = .ok (.directory (.live location)))
    (hsteps : context.files.Straight (context.start path) path.steps location)
    (h : context.tagsIn root path = .ok tags) :
    List.Forall₂ (fun entry tag => ∃ way, Tag.ofPath context root way = .ok tag ∧
        context.files.IsDirectory (entry.name :: location) ∧
        context.files.Straight (context.start way) way.steps (entry.name :: location))
      (subdirectories (context.contentsAt (.live location)).entries) tags := by
  obtain ⟨_, hne, _, _⟩ := walk_of_lookup hpath
  unfold tagsIn at h
  split at h
  · contradiction
  next entries hread =>
    obtain ⟨place, hplace, rfl⟩ := readDirectory_eq_ok hread
    cases hpath.symm.trans hplace
    have htags := List.forall₂_map_left_iff.1 (tagsOfPaths_eq_ok h)
    have hdirectories := (List.forall₂_and_left _ _).2
      ⟨fun _ hentry => isDirectory_of_mem_subdirectories hentry, htags⟩
    apply hdirectories.imp
    rintro entry tag ⟨hentry, htag⟩
    refine ⟨_, htag, hentry, ?_⟩
    apply straight_join hne (Path.isAbsolute_component _) hsteps
    rw [Path.steps_component]
    exact .down hentry (.nil _)

/-- Different subdirectories have different tags. -/
theorem nodup_of_absolute {entries : List Entry} {tags : List Tag}
    (hentries : (entries.map Entry.name).Nodup)
    (h : List.Forall₂ (fun entry tag => context.absolute (tag.toPath root) =
      .ok (.ofLocation (entry.name :: location))) entries tags) : tags.Nodup := by
  have hroutes : tags.map (fun tag => context.absolute (tag.toPath root)) =
      (entries.map Entry.name).map fun name => .ok (.ofLocation (name :: location)) := by
    induction h with
    | nil => rfl
    | cons hfirst _ ih =>
        rw [List.map_cons, List.nodup_cons] at hentries
        rw [List.map_cons, List.map_cons, List.map_cons, hfirst, ih hentries.2]
  apply List.Nodup.of_map (fun tag => context.absolute (tag.toPath root))
  rw [hroutes]
  apply hentries.map
  intro name other hsame
  have hlocation := Route.ofLocation_inj (Except.ok.inj hsame)
  exact (List.cons.inj hlocation).1

/-! ## Directories that are reached without links -/

/-- The path leads to a directory of the tree, and no symbolic link is followed on the way:
the walk leads there even if it may replace none. -/
structure LeadsStraight (context : Context) (path : Path) (location : Location) : Prop where
  leads : context.lookup path = .ok (.directory (.live location))
  walk : walk context.files true 0 (path.origin context.here) path.steps =
    .ok (.directory (.live location))

/-- The path leads to a directory of the tree, or is too long to be looked up. -/
def LeadsIfShort (context : Context) (path : Path) (location : Location) : Prop :=
  context.lookup path =
    if path.isTooLong = true then .error .nameTooLong else .ok (.directory (.live location))

theorem LeadsStraight.steps (h : context.LeadsStraight path location)
    (hcwd : context.cwd.lost = 0) :
    context.files.Straight (context.start path) path.steps location := by
  have hplace := place_origin hcwd path
  obtain ⟨_, hstraight⟩ := straight_of_walk (FileSystem.isTrail_origin context.isTrail_here path)
    (congrArg Place.lost hplace) h.walk
  rwa [hplace] at hstraight

/-- Of paths to directories on whose ways no symbolic link is followed. The normal form of
the path leads to the same directory, and so does its tag from the root, as a path and as
a name that is resolved. The tags in the directory are resolved to its subdirectories, one
tag to each. The path that is looked up must in each case not be too long. -/
theorem tag_leads_to_directory (hcwd : context.cwd.lost = 0)
    (hroot : context.LeadsStraight root base) (hpath : context.LeadsStraight path location) :
    (∃ route, context.absolute path = .ok route ∧ context.LeadsIfShort route.toPath location) ∧
    (∀ tag, Tag.ofPath context root path = .ok tag →
      context.LeadsIfShort (tag.toPath root) location ∧
      context.LeadsIfShort (resolveAsPath root tag.text) location) ∧
    ∀ tags, context.tagsIn root path = .ok tags →
      List.Forall₂ (fun entry tag =>
          context.LeadsIfShort (resolveAsPath root tag.text) (entry.name :: location))
        (subdirectories (context.contentsAt (.live location)).entries) tags ∧
      tags.Nodup := by
  have hrootSteps := hroot.steps hcwd
  have hpathSteps := hpath.steps hcwd
  have hdirectory : context.files.IsDirectory location := isDirectory_of_lookup hpath.leads
  have hresolve (tag : Tag) : resolveAsPath root tag.text = tag.toPath root := by
    rw [resolveAsPath, dif_pos tag.marked]
  refine ⟨⟨_, absolute_of_straight hcwd hpathSteps, ?_⟩, ?_, ?_⟩
  · exact lookup_toPath_ofLocation hcwd hdirectory
  · intro tag htag
    rw [hresolve]
    have hleads := lookup_toPath_of_straight hcwd hroot.leads hrootSteps hpathSteps hdirectory htag
    exact ⟨hleads, hleads⟩
  · intro tags htags
    have hways := tagsIn_eq_ok hpath.leads hpathSteps htags
    constructor
    · apply hways.imp
      rintro entry tag ⟨way, htag, hentry, hway⟩
      rw [hresolve]
      exact lookup_toPath_of_straight hcwd hroot.leads hrootSteps hway hentry htag
    · have hsorted := sorted_contentsAt context (.live location)
      have hnames : ((subdirectories (context.contentsAt (.live location)).entries).map
          Entry.name).Nodup :=
        (Contents.nodup_map_name_entries hsorted).sublist (List.filter_sublist.map _)
      apply nodup_of_absolute hnames
      apply hways.imp
      rintro entry tag ⟨way, htag, _, hway⟩
      rw [Tag.absolute_toPath_of_ofPath htag]
      exact absolute_of_straight hcwd hway

/-- The tag of `A` climbs from the root in `B`. The tags of both directories lead to them. -/
theorem shelf_tag_leads_to_directory :
    Tag.ofPath shelf (.ofString "A/../B") (.ofString "./A/") =
      .ok ⟨"//../A", isTag_append "../A"⟩ ∧
    shelf.LeadsIfShort (resolveAsPath (.ofString "A/../B") "//../A") [nameA] ∧
    shelf.tagsIn (.ofString "A/../B") (.ofString "./A/..") =
      .ok [⟨"//../A", isTag_append "../A"⟩, ⟨"//", isTag_append ""⟩] ∧
    shelf.LeadsIfShort (resolveAsPath (.ofString "A/../B") "//") [nameB] := by
  have hroot : shelf.LeadsStraight (.ofString "A/../B") [nameB] := ⟨by rfl, by rfl⟩
  have hpath : shelf.LeadsStraight (.ofString "./A/") [nameA] := ⟨by rfl, by rfl⟩
  have htop : shelf.LeadsStraight (.ofString "./A/..") [] := ⟨by rfl, by rfl⟩
  have htag : Tag.ofPath shelf (.ofString "A/../B") (.ofString "./A/") =
      .ok ⟨"//../A", isTag_append "../A"⟩ := by rfl
  have htags : shelf.tagsIn (.ofString "A/../B") (.ofString "./A/..") =
      .ok [⟨"//../A", isTag_append "../A"⟩, ⟨"//", isTag_append ""⟩] := by
    rw [tagsIn, readDirectory_eq]
    rfl
  obtain ⟨_, hleads, _⟩ := tag_leads_to_directory rfl hroot hpath
  obtain ⟨_, _, hinside⟩ := tag_leads_to_directory rfl hroot htop
  cases (hinside _ htags).1 with
  | cons _ hrest =>
      cases hrest with
      | cons hlast _ => exact ⟨htag, (hleads _ htag).2, htags, hlast⟩

/-- The root, with as many slashes as a path may have bytes. -/
def slashesRoot : Path := ⟨List.replicate 4095 slash⟩

/-- A tag can stand for a path that leads nowhere, because the path is too long, although no
symbolic link is followed on the way to the root and to the directory. -/
theorem tag_gives_path_too_long :
    shelf.LeadsStraight slashesRoot [] ∧ shelf.LeadsStraight (.ofString "/A") [nameA] ∧
    Tag.ofPath shelf slashesRoot (.ofString "/A") = .ok ⟨"//A", isTag_append "A"⟩ ∧
    shelf.lookup (Tag.toPath slashesRoot ⟨"//A", isTag_append "A"⟩) = .error .nameTooLong := by
  have habsolute : slashesRoot.isAbsolute = true := Path.isAbsolute_slashes (by decide)
  have hsteps : slashesRoot.steps = List.replicate 4096 .stay := Path.steps_slashes 4095
  have hroot : shelf.LeadsStraight slashesRoot [] := by
    refine ⟨lookup_slashes shelf (by decide) (by decide), ?_⟩
    rw [hsteps, walk_stays, Path.origin, if_pos habsolute]
    rfl
  have hpath : shelf.LeadsStraight (.ofString "/A") [nameA] := ⟨by rfl, by rfl⟩
  have htag : Tag.ofPath shelf slashesRoot (.ofString "/A") =
      .ok ⟨"//A", isTag_append "A"⟩ := by
    rw [Tag.ofPath_eq (absolute_of_straight rfl (hpath.steps rfl))
      (absolute_of_straight rfl (hroot.steps rfl))]
    rfl
  refine ⟨hroot, hpath, htag, ?_⟩
  rw [lookup_toPath_of_straight rfl hroot.leads (hroot.steps rfl) (hpath.steps rfl) (by rfl) htag]
  apply if_pos
  have hlength : slashesRoot.bytes.length = 4095 := List.length_replicate
  have hne : slashesRoot.bytes ≠ [] := List.ne_nil_of_length_pos (by omega)
  have hlead := Path.length_le_lead slashesRoot
  have hway : (Tag.way ⟨"//A", isTag_append "A"⟩).bytes = [0x41] := by decide
  have hjoined := Path.bytes_join hne (Tag.isAbsolute_way ⟨"//A", isTag_append "A"⟩)
  rw [Tag.toPath, if_neg (by rw [hway]; exact List.cons_ne_nil _ _), Path.isTooLong,
    decide_eq_true_eq, hjoined, hway, List.length_append, List.length_singleton, pathLimit]
  omega

end Context

end LinkTags
