import LinkTags.Proofs.Listing.Visits
import LinkTags.Proofs.Path.Parent
import LinkTags.Proofs.Search.Meaning

/-!
# Parents of links

The tags of a file are made of the parents of its links, each parent once. The links in one
directory all have the directory as their parent, and different directories of a walk differ
in their components, so that one parent is left for each directory that has a link, in the
order of the walk (`Context.tagsOf_eq`).

## Implementation notes

A parent is mostly not the path by which the walk came to the directory: the links in `/lib/.`
have the parent `/lib`. Paths with the same components have the same tag, though
(`Tag.ofPath_congr`), and components are all that is compared before.
-/

namespace LinkTags

/-! ## Paths with the same components -/

/-- A route does not change by steps that stay. -/
theorem Route.followAll_filter (route : Route) (steps : List Step) :
    route.followAll (steps.filter (· ≠ .stay)) = route.followAll steps := by
  induction steps generalizing route with
  | nil => rfl
  | cons step rest ih =>
      cases step with
      | stay => exact ih route
      | up => exact ih (route.follow .up)
      | down component => exact ih (route.follow (.down component))

section

variable {context : Context} {root path other : Path}

theorem Context.absolute_congr (h : path.components = other.components) :
    context.absolute path = context.absolute other := by
  obtain ⟨hstart, hmoves⟩ := Prod.mk.inj h
  have habsolute : path.isAbsolute = other.isAbsolute := by
    rw [Bool.eq_iff_iff, Path.isAbsolute_iff_start, Path.isAbsolute_iff_start, hstart]
  have hfollow (route : Route) : route.followAll path.steps = route.followAll other.steps := by
    rw [← route.followAll_filter path.steps, ← route.followAll_filter other.steps]
    exact congrArg route.followAll hmoves
  rw [absolute, absolute, habsolute, hfollow, hfollow]

/-- Paths with the same components have the same tag. -/
theorem Tag.ofPath_congr (h : path.components = other.components) :
    Tag.ofPath context root path = Tag.ofPath context root other := by
  rw [ofPath, ofPath, Context.absolute_congr h]

end

namespace Context

variable {context : Context} {root : Path}

theorem tagsOfPaths_congr {paths others : List Path}
    (h : paths.map Path.components = others.map Path.components) :
    context.tagsOfPaths root paths = context.tagsOfPaths root others := by
  induction paths generalizing others with
  | nil =>
      obtain rfl := List.map_eq_nil_iff.1 h.symm
      rfl
  | cons path rest ih =>
      obtain ⟨other, more, rfl, hother, hmore⟩ := List.map_eq_cons_iff.1 h.symm
      rw [tagsOfPaths, tagsOfPaths, Tag.ofPath_congr hother.symm, ih hmore.symm]

/-! ## The parents of the links in a directory -/

/-- The parents of the links to a file in one of the directories visited. -/
def parentsAmong (id : FileId) (visit : Path × List Entry) : List Path :=
  (linksAmong id visit).filterMap Path.parent?

section parentsAmong

variable {id : FileId} {visit : Path × List Entry} (hne : visit.1.bytes ≠ [])

include hne

/-- A link has a parent, with the components of the path to the directory that it is in. -/
theorem exists_parent?_of_mem_linksAmong {link : Path} (h : link ∈ linksAmong id visit) :
    ∃ parent, link.parent? = some parent ∧ parent.components = visit.1.components := by
  obtain ⟨item, hitem, rfl⟩ := List.mem_map.1 h
  obtain ⟨name, inode, _, _, rfl⟩ := mem_regularFiles.1 (List.mem_filter.1 hitem).1
  exact Path.exists_parent?_join_component hne name.toComponent

theorem components_of_mem_parentsAmong {parent : Path} (h : parent ∈ parentsAmong id visit) :
    parent.components = visit.1.components := by
  obtain ⟨link, hlink, hparent⟩ := List.mem_filterMap.1 h
  obtain ⟨other, hother, hcomponents⟩ := exists_parent?_of_mem_linksAmong hne hlink
  obtain rfl : other = parent := Option.some.inj (hother.symm.trans hparent)
  exact hcomponents

theorem parentsAmong_eq_nil_iff : parentsAmong id visit = [] ↔ linksAmong id visit = [] := by
  rw [parentsAmong, List.filterMap_eq_nil_iff]
  constructor
  · intro h
    apply List.eq_nil_iff_forall_not_mem.2
    intro link hlink
    obtain ⟨parent, hparent, _⟩ := exists_parent?_of_mem_linksAmong hne hlink
    rw [h link hlink] at hparent
    contradiction
  · intro h
    simp [h]

end parentsAmong

/-! ## One parent for each directory -/

theorem exists_lookup_of_walkFiles {visits : List (Path × List Entry)}
    (h : context.walkFiles root = .ok visits) :
    ∃ place, context.lookup root = .ok (.directory place) := by
  unfold walkFiles contentsOf directoryAt at h
  cases hlookup : context.lookup root with
  | error e => simp [hlookup] at h
  | ok found =>
      cases found with
      | file directory name inode => simp [hlookup] at h
      | directory place => exact ⟨place, rfl⟩

/-- The directories of a walk are reached by paths with different components. -/
theorem nodup_components_ways (hne : root.bytes ≠ []) (place : Place) :
    ((context.contentsAt place).ways.map fun way => (root.through way.1).components).Nodup := by
  have hways := Contents.pairwise_ways (sorted_contentsAt context place)
  rw [List.pairwise_map] at hways
  rw [List.Nodup, List.pairwise_map]
  refine hways.imp ?_
  intro way other hlt hsame
  rw [Path.moves_through_inj hne (congrArg Prod.snd hsame)] at hlt
  exact List.lt_irrefl other.1 hlt

/-- Of the parents of all links, one is left for each directory visited that has a link. -/
theorem map_components_unique_parents (hne : root.bytes ≠ []) (place : Place) (id : FileId) :
    let visits := (context.contentsAt place).ways.map fun way => (root.through way.1, way.2)
    (Path.unique ((visits.flatMap (linksAmong id)).filterMap Path.parent?)).map Path.components =
      ((visits.filter fun visit => linksAmong id visit ≠ []).map Prod.fst).map
        Path.components := by
  intro visits
  have hvisits : ∀ visit ∈ visits, visit.1.bytes ≠ [] := by
    intro visit hvisit
    obtain ⟨way, _, rfl⟩ := List.mem_map.1 hvisit
    exact Path.bytes_through_ne_nil hne way.1
  have hnodup : (visits.map fun visit => visit.1.components).Nodup := by
    rw [List.map_map]
    exact nodup_components_ways hne place
  have hhas : ∀ visit ∈ visits,
      decide (parentsAmong id visit ≠ []) = decide (linksAmong id visit ≠ []) := by
    intro visit hvisit
    simp [parentsAmong_eq_nil_iff (hvisits visit hvisit)]
  rw [List.filterMap_flatMap, List.map_map, ← List.filter_congr hhas]
  exact Path.map_components_unique hnodup fun visit hvisit _ =>
    components_of_mem_parentsAmong (hvisits visit hvisit)

/-- The tags of a file are those of the directories visited that have a link to it. -/
theorem tagsOf_eq (context : Context) (root file : Path) :
    context.tagsOf root file =
      match context.identity file with
      | .error e => .error (.filesystem e)
      | .ok id =>
          match context.walkFiles root with
          | .error e => .error (.filesystem e)
          | .ok visits =>
              context.tagsOfPaths root
                ((visits.filter fun visit => linksAmong id visit ≠ []).map Prod.fst) := by
  rw [tagsOf, links]
  cases context.identity file with
  | error e => rfl
  | ok id =>
      cases hvisits : context.walkFiles root with
      | error e => rfl
      | ok visits =>
          obtain ⟨place, hroot⟩ := exists_lookup_of_walkFiles hvisits
          obtain ⟨_, hne, _⟩ := walk_of_lookup hroot
          obtain ⟨rfl, _⟩ := walkFiles_eq_ok hroot hvisits
          exact tagsOfPaths_congr (map_components_unique_parents hne place id)

end Context

end LinkTags
