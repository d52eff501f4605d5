import LinkTags.Proofs.Library.Nearest
import LinkTags.Proofs.Library.Root
import LinkTags.Proofs.Tag.Faithful

/-!
# Which library is found

In a tree without symbolic links the path that writes an absolute route leads to a directory
only if this is the directory of the route (`Context.isLibrary_toPath_iff`). So a library that
is made at a path, however the path is spelled, is found from below by the path that writes
the route of its root, unless there is one nearer (`Context.findLibrary_of_initLibrary`).

A library is made at a path that is short enough, but is looked for at the path that writes
the route of its root. Where that leaves no room for the marker, the library is made and not
found (`Context.ravine_findLibrary`).
-/

namespace LinkTags

/-- The route to a location with one more name is that of the location, extended by it. -/
theorem Route.exists_of_follow_down {route : Route} {name : Name} {location : Location}
    (h : route.follow (.down name.toComponent) = .ofLocation location) :
    ∃ base, location = name :: base ∧ route = .ofLocation base := by
  have habsolute : route.absolute = true := congrArg Route.absolute h
  have hnames : name.toComponent :: route.names = location.map Name.toComponent :=
    congrArg Route.names h
  cases location with
  | nil => contradiction
  | cons first base =>
      rw [List.map_cons, List.cons_eq_cons] at hnames
      obtain ⟨hfirst, hrest⟩ := hnames
      obtain rfl := Name.toComponent_inj hfirst
      refine ⟨base, rfl, ?_⟩
      rw [Route.eq_fromRoot habsolute, hrest]
      rfl

namespace Context

variable {context after : Context} {directory path : Path} {route : Route} {base : Location}

/-- The path that writes an absolute route has this route. -/
theorem absolute_of_route (context : Context) (habsolute : route.absolute = true) :
    context.absolute route.toPath = .ok route := by
  have hroute := Route.ofPath_toPath route
  rw [Route.ofPath, Route.isAbsolute_toPath, if_pos habsolute] at hroute
  rw [absolute, Route.isAbsolute_toPath, if_pos habsolute, hroute]

theorem exists_of_absolute_join (hcwd : context.cwd.lost = 0) {name : Name} {location : Location}
    (h : context.absolute (path.join name.path) = .ok (.ofLocation location)) :
    ∃ base, location = name :: base ∧ context.absolute path = .ok (.ofLocation base) := by
  obtain ⟨route, hroute⟩ := exists_absolute hcwd path
  rw [absolute_join context path (Path.isAbsolute_component _), hroute, Path.steps_component] at h
  obtain ⟨base, rfl, rfl⟩ := Route.exists_of_follow_down (Except.ok.inj h)
  exact ⟨base, rfl, hroute⟩

theorem absolute_of_empty (hcwd : context.cwd.lost = 0) (hempty : path.bytes = []) :
    context.absolute path = .ok (.ofLocation context.cwd.base) := by
  rw [absolute_eq hcwd, Path.steps_of_empty hempty, start, Path.isAbsolute_of_empty hempty]
  rfl

/-- A marker that can be made at the spot that a path names makes a library. -/
theorem initLibrary_of_addNode
    (hspot : context.spot (directory.join marker) = .ok (base, markerName))
    (hmade : context.addNode base markerName .directory = .ok after) :
    context.initLibrary directory = .ok after := by
  obtain ⟨_, hfree, _⟩ := addNode_eq_ok hmade
  have hvacancy : context.vacancy (directory.join marker) = .ok (base, markerName) := by
    rw [vacancy, hspot]
    exact if_pos hfree
  rw [initLibrary, makeDirectory, create, hvacancy]
  dsimp only
  rw [hmade]

/-- The path leads to the directory, and is short enough for the marker in it. -/
structure LeadsToRoot (context : Context) (path : Path) (base : Location) : Prop where
  leads : context.lookup path = .ok (.directory (.live base))
  short : ¬(path.join marker).isTooLong = true

/-! ## Libraries at routes -/

section Plain

variable (hplain : context.files.IsPlain) (hcwd : context.cwd.lost = 0)
  (habsolute : route.absolute = true)

include hcwd in
theorem leadsToRoot_of_isDirectory (hbase : context.files.IsDirectory base)
    (hshort : ¬((Route.ofLocation base).toPath.join marker).isTooLong = true) :
    context.LeadsToRoot (Route.ofLocation base).toPath base := by
  have hroot : ¬(Route.ofLocation base).toPath.isTooLong = true := by
    intro hlong
    exact hshort (Path.isTooLong_join hlong markerName.toComponent)
  refine ⟨?_, hshort⟩
  rw [lookup_toPath_ofLocation hcwd hbase, if_neg hroot]

include hplain hcwd habsolute

/-- A written route leads to a directory only if it is the route to this directory. -/
theorem leadsToRoot_toPath_iff (hbase : context.files.IsDirectory base) :
    context.LeadsToRoot route.toPath base ↔ route = .ofLocation base ∧
      ¬((Route.ofLocation base).toPath.join marker).isTooLong = true := by
  constructor
  · rintro ⟨hleads, hshort⟩
    obtain ⟨_, hroute⟩ := absolute_of_lookup hplain hcwd hleads
    rw [absolute_of_route context habsolute] at hroute
    obtain rfl : route = .ofLocation base := Except.ok.inj hroute
    exact ⟨rfl, hshort⟩
  · rintro ⟨rfl, hshort⟩
    exact leadsToRoot_of_isDirectory hcwd hbase hshort

/-- A written route is that of a library if it is the route to a directory that holds a
marker, and leaves room for it. -/
theorem isLibrary_toPath_iff : context.isLibrary route.toPath = true ↔
    ∃ base, route = .ofLocation base ∧ context.files.IsDirectory (markerName :: base) ∧
      ¬((Route.ofLocation base).toPath.join marker).isTooLong = true := by
  rw [isLibrary, isDirectory_iff]
  constructor
  · rintro ⟨place, hmarker⟩
    obtain ⟨⟨_, _, hshort⟩, _⟩ := walkFrom_eq_ok_iff.1 hmarker
    have hdirectory := isDirectory_of_lookup hmarker
    obtain ⟨_, hroute⟩ := absolute_of_lookup hplain hcwd hmarker
    rw [← markerName_path] at hroute
    obtain ⟨base, hbase, hroute⟩ := exists_of_absolute_join hcwd hroute
    rw [absolute_of_route context habsolute] at hroute
    obtain rfl : route = .ofLocation base := Except.ok.inj hroute
    rw [hbase] at hdirectory
    exact ⟨base, rfl, hdirectory, hshort⟩
  · rintro ⟨base, rfl, hmarker, hshort⟩
    have hroot := leadsToRoot_of_isDirectory hcwd (FileSystem.isDirectory_of_node? hmarker) hshort
    have hleads := lookup_join_directory hroot.leads hmarker hshort
    exact ⟨_, hleads⟩

/-! ## A new marker -/

variable (hmade : context.addNode base markerName .directory = .ok after)

include hmade

/-- A written route is that of a library after the marker is made if it was that of one
before, or leads to the directory with the new marker. -/
theorem isLibrary_of_addMarker_iff : after.isLibrary route.toPath = true ↔
    context.isLibrary route.toPath = true ∨ context.LeadsToRoot route.toPath base := by
  obtain ⟨hsame, hfree, hnode⟩ := addNode_eq_ok hmade
  have hafter : after.files.IsPlain := by
    intro location inode target hinode
    rw [hnode] at hinode
    split at hinode
    · cases hinode
    · exact hplain location inode target hinode
  have hmarked (other : Location) : after.files.IsDirectory (markerName :: other) ↔
      context.files.IsDirectory (markerName :: other) ∨ other = base := by
    rw [FileSystem.IsDirectory, hnode, FileSystem.IsDirectory]
    split <;> simp_all
  rw [isLibrary_toPath_iff hafter (hsame ▸ hcwd) habsolute,
    isLibrary_toPath_iff hplain hcwd habsolute,
    leadsToRoot_toPath_iff hplain hcwd habsolute (isDirectory_of_addNode hmade)]
  constructor
  · rintro ⟨other, rfl, hmarker, hshort⟩
    rcases (hmarked other).1 hmarker with hbefore | rfl
    · exact .inl ⟨other, rfl, hbefore, hshort⟩
    · exact .inr ⟨rfl, hshort⟩
  · rintro (⟨other, rfl, hmarker, hshort⟩ | ⟨rfl, hshort⟩)
    · exact ⟨other, rfl, (hmarked other).2 (.inl hmarker), hshort⟩
    · exact ⟨base, rfl, (hmarked base).2 (.inr rfl), hshort⟩

end Plain

/-! ## What is found after a marker is made -/

theorem exists_findLibrary {start : Path} (hroute : context.absolute start = .ok route) :
    ∃ result, context.findLibrary start = .ok result ∧
      route.Nearest (fun path => context.isLibrary path = true) result := by
  refine ⟨_, ?_, route.nearest_find? context.isLibrary⟩
  rw [findLibrary, hroute]

section Found

variable (hplain : context.files.IsPlain) (hcwd : context.cwd.lost = 0)
  (hmade : context.addNode base markerName .directory = .ok after) {start : Path}
  (hroute : context.absolute start = .ok route)

include hplain hcwd hmade hroute

/-- A start finds the nearest of what was a library and what leads to the new marker. -/
theorem exists_findLibrary_of_addMarker :
    ∃ result, after.findLibrary start = .ok result ∧
      route.Nearest (fun path => context.isLibrary path = true ∨
        context.LeadsToRoot path base) result := by
  obtain ⟨hsame, _, _⟩ := addNode_eq_ok hmade
  have hrouteAfter : after.absolute start = .ok route := by
    rw [← hroute, absolute, absolute, hsame]
  obtain ⟨result, hresult, hnearest⟩ := exists_findLibrary hrouteAfter
  refine ⟨result, hresult, hnearest.congr ?_⟩
  intro outer houter
  have habsolute := houter.absolute.trans (absolute_eq_true hroute)
  exact isLibrary_of_addMarker_iff hplain hcwd habsolute hmade

theorem leadsToRoot_iff_of_isOutward {outer : Route} (houter : outer.IsOutward route) :
    context.LeadsToRoot outer.toPath base ↔ outer = .ofLocation base ∧
      ¬((Route.ofLocation base).toPath.join marker).isTooLong = true :=
  leadsToRoot_toPath_iff hplain hcwd (houter.absolute.trans (absolute_eq_true hroute))
    (isDirectory_of_addNode hmade)

/-- What is still nearest with the new marker in view is still found. -/
theorem findLibrary_eq_of_still
    (hstill : ∀ result, route.Nearest (fun path => context.isLibrary path = true) result →
      route.Nearest (fun path => context.isLibrary path = true ∨
        context.LeadsToRoot path base) result) :
    after.findLibrary start = context.findLibrary start := by
  obtain ⟨before, hbefore, hnearest⟩ := exists_findLibrary hroute
  obtain ⟨result, hresult, hfound⟩ := exists_findLibrary_of_addMarker hplain hcwd hmade hroute
  rw [hresult, hbefore, hfound.unique (hstill before hnearest)]

/-- Nothing changes if no route outward leads to the new marker. -/
theorem findLibrary_eq_of_not_leads
    (hnot : ¬((Route.ofLocation base).IsOutward route ∧
      ¬((Route.ofLocation base).toPath.join marker).isTooLong = true)) :
    after.findLibrary start = context.findLibrary start := by
  apply findLibrary_eq_of_still hplain hcwd hmade hroute
  intro before hnearest
  refine hnearest.congr ?_
  intro outer houter
  rw [leadsToRoot_iff_of_isOutward hplain hcwd hmade hroute houter]
  constructor
  · exact .inl
  · rintro (hlibrary | ⟨rfl, hshort⟩)
    · exact hlibrary
    · exact absurd ⟨houter, hshort⟩ hnot

/-- Nothing changes if there was a library nearer than the new marker. -/
theorem findLibrary_eq_of_nearer {nearer : Route} (hnearer : nearer.IsOutward route)
    (hinner : (Route.ofLocation base).IsOutward nearer)
    (hlibrary : context.isLibrary nearer.toPath = true) :
    after.findLibrary start = context.findLibrary start := by
  apply findLibrary_eq_of_still hplain hcwd hmade hroute
  intro before hnearest
  refine hnearest.of_nearer hnearer hlibrary (fun _ _ => .inl) ?_
  rintro outer houter (hother | hother)
  · exact .inl hother
  · obtain ⟨rfl, _⟩ :=
      (leadsToRoot_iff_of_isOutward hplain hcwd hmade hroute houter).1 hother
    exact .inr hinner

/-- The directory of the new marker is found if there was no library nearer. -/
theorem findLibrary_eq_of_below (hbelow : (Route.ofLocation base).IsOutward route)
    (hnone : ∀ nearer : Route, nearer.IsOutward route →
      (Route.ofLocation base).IsOutward nearer → ¬context.isLibrary nearer.toPath = true)
    (hshort : ¬((Route.ofLocation base).toPath.join marker).isTooLong = true) :
    after.findLibrary start = .ok (some (Route.ofLocation base).toPath) := by
  have hleads {outer : Route} (houter : outer.IsOutward route) :=
    leadsToRoot_iff_of_isOutward hplain hcwd hmade hroute houter
  obtain ⟨result, hresult, hfound⟩ := exists_findLibrary_of_addMarker hplain hcwd hmade hroute
  have hroot := (hleads hbelow).2 ⟨rfl, hshort⟩
  rw [hresult]
  refine congrArg Except.ok (hfound.unique (.found hbelow (.inr hroot) ?_))
  rintro outer houter (hother | hother)
  · rcases houter.total hbelow with hfarther | hinner
    · exact hfarther
    · exact absurd hother (hnone outer houter hinner)
  · obtain ⟨rfl, _⟩ := (hleads houter).1 hother
    exact .refl _

end Found

/-! ## What is found after a library is made -/

/-- The path that a library is made at leads to the directory with the new marker, and the
empty path means the working directory. -/
theorem exists_root_of_initLibrary (hplain : context.files.IsPlain) (hcwd : context.cwd.lost = 0)
    (h : context.initLibrary directory = .ok after) :
    ∃ base, context.addNode base markerName .directory = .ok after ∧
      context.absolute directory = .ok (.ofLocation base) ∧
      (directory.bytes ≠ [] → context.lookup directory = .ok (.directory (.live base))) ∧
      (directory.bytes = [] → context.cwd = .live base) := by
  obtain ⟨base, hspot, hmade⟩ := addNode_of_initLibrary h
  rw [← markerName_path] at hspot
  obtain ⟨_, ⟨⟩, hdirectory⟩ := exists_of_absolute_join hcwd (absolute_of_spot hplain hcwd hspot)
  refine ⟨base, hmade, hdirectory, fun hne => lookup_of_spot_join hne hspot, ?_⟩
  intro hempty
  have hhere := hdirectory.symm.trans (absolute_of_empty hcwd hempty)
  rw [Route.ofLocation_inj (Except.ok.inj hhere)]
  exact congrArg (Place.mk _) hcwd

/-- When a library is made, in a tree without symbolic links and with a working directory that
is part of it, the path that it is made at leads to a directory, the empty path meaning the
working directory. Afterwards every start finds the nearest outward along its route of what was
a library before and what leads to this directory and leaves room for the marker. So a start
that is not below the directory finds what it found before, and so does one that has a library
nearer to it. Every other start below finds the path that writes the route of the directory,
unless this path leaves no room for the marker, and then nothing changes for any start. -/
theorem findLibrary_of_initLibrary (hplain : context.files.IsPlain) (hcwd : context.cwd.lost = 0)
    (h : context.initLibrary directory = .ok after) :
    ∃ base, context.absolute directory = .ok (.ofLocation base) ∧
      (directory.bytes ≠ [] → context.lookup directory = .ok (.directory (.live base))) ∧
      (directory.bytes = [] → context.cwd = .live base) ∧
      ∀ start, ∃ route result, context.absolute start = .ok route ∧
        after.findLibrary start = .ok result ∧
        route.Nearest (fun path => context.isLibrary path = true ∨
          context.LeadsToRoot path base) result ∧
        (¬(Route.ofLocation base).IsOutward route →
          after.findLibrary start = context.findLibrary start) ∧
        (∀ nearer : Route, nearer.IsOutward route → (Route.ofLocation base).IsOutward nearer →
          context.isLibrary nearer.toPath = true →
          after.findLibrary start = context.findLibrary start) ∧
        ((Route.ofLocation base).IsOutward route →
          (∀ nearer : Route, nearer.IsOutward route → (Route.ofLocation base).IsOutward nearer →
            ¬context.isLibrary nearer.toPath = true) →
          ¬((Route.ofLocation base).toPath.join marker).isTooLong = true →
          after.findLibrary start = .ok (some (Route.ofLocation base).toPath)) ∧
        (((Route.ofLocation base).toPath.join marker).isTooLong = true →
          after.findLibrary start = context.findLibrary start) := by
  obtain ⟨base, hmade, hdirectory, hleads, hempty⟩ := exists_root_of_initLibrary hplain hcwd h
  refine ⟨base, hdirectory, hleads, hempty, ?_⟩
  intro start
  obtain ⟨route, hroute⟩ := exists_absolute hcwd start
  obtain ⟨result, hresult, hfound⟩ := exists_findLibrary_of_addMarker hplain hcwd hmade hroute
  refine ⟨route, result, hroute, hresult, hfound, ?_, ?_, ?_, ?_⟩
  · intro hbeside
    exact findLibrary_eq_of_not_leads hplain hcwd hmade hroute fun h => hbeside h.1
  · intro nearer hnearer hinner hlibrary
    exact findLibrary_eq_of_nearer hplain hcwd hmade hroute hnearer hinner hlibrary
  · intro hbelow hnone hshort
    exact findLibrary_eq_of_below hplain hcwd hmade hroute hbelow hnone hshort
  · intro hlong
    exact findLibrary_eq_of_not_leads hplain hcwd hmade hroute fun h => h.2 hlong

theorem shelf_isPlain : shelf.files.IsPlain := by
  have hregular : ∀ inode ∈ shelf.files.root.inodes, inode.kind = .regular := by decide
  refine FileSystem.isPlain_of_inodes ?_
  intro inode hinode target htarget
  rw [hregular inode hinode] at htarget
  contradiction

/-- A library is made at `/A`, by a path that spells it otherwise. It is found from what is
below, be it there or not, and the library around it from everywhere else. -/
theorem shelf_findLibrary_of_initLibrary :
    shelf.files.IsPlain ∧ shelf.cwd.lost = 0 ∧
    ∃ after, shelf.initLibrary (.ofString "B/../A/.") = .ok after ∧
      after.findLibrary (.ofString "A/x") = .ok (some (.ofString "/A")) ∧
      after.findLibrary (.ofString "B") = shelf.findLibrary (.ofString "B") := by
  obtain ⟨after, hafter⟩ : ∃ after, shelf.initLibrary (.ofString "B/../A/.") = .ok after :=
    ⟨_, rfl⟩
  refine ⟨shelf_isPlain, rfl, after, hafter, ?_⟩
  obtain ⟨base, hroute, _, _, hfinds⟩ := findLibrary_of_initLibrary shelf_isPlain rfl hafter
  have hspelled : shelf.absolute (.ofString "B/../A/.") = .ok (.ofLocation [nameA]) := by rfl
  obtain rfl : base = [nameA] :=
    Route.ofLocation_inj (Except.ok.inj (hroute.symm.trans hspelled))
  constructor
  · obtain ⟨route, _, hstart, _, _, _, _, hbelow, _⟩ := hfinds (.ofString "A/x")
    have hx : shelf.absolute (.ofString "A/x") = .ok (.ofLocation [nameX, nameA]) := by rfl
    obtain rfl : route = .ofLocation [nameX, nameA] := Except.ok.inj (hstart.symm.trans hx)
    refine hbelow ⟨rfl, rfl, by decide⟩ ?_ (by decide)
    intro nearer hnearer hinner
    rcases Route.IsOutward.cons_iff.1 hnearer with rfl | hnearer
    · decide
    · obtain rfl := hnearer.antisymm hinner
      decide
  · obtain ⟨route, _, hstart, _, _, hbeside, _⟩ := hfinds (.ofString "B")
    have hB : shelf.absolute (.ofString "B") = .ok (.ofLocation [nameB]) := by rfl
    obtain rfl : route = .ofLocation [nameB] := Except.ok.inj (hstart.symm.trans hB)
    apply hbeside
    rintro ⟨_, _, hnames⟩
    revert hnames
    decide

/-! ## A root too deep for its marker -/

theorem length_intercalate_replicate (count : Nat) (piece : List UInt8) :
    ([slash].intercalate (List.replicate (count + 1) piece)).length + 1 =
      (count + 1) * (piece.length + 1) := by
  induction count with
  | zero => simp [List.intercalate]
  | succ count ih =>
      rw [List.replicate_succ, List.replicate_succ, List.intercalate_cons_cons,
        ← List.replicate_succ, List.length_append, List.length_append, List.length_singleton,
        Nat.add_assoc, ih, Nat.succ_mul (count + 1), Nat.add_comm]

/-- Every directory `A` takes a slash and its name. -/
theorem length_toPath_replicate (count : Nat) :
    (Route.ofLocation (List.replicate (count + 1) nameA)).toPath.bytes.length =
      2 * (count + 1) := by
  have hpieces : (Route.ofLocation (List.replicate (count + 1) nameA)).pieces =
      List.replicate (count + 1) nameA.bytes := by
    simp [Route.pieces, Route.ofLocation, Route.fromRoot]
  have hlength := length_intercalate_replicate count nameA.bytes
  have hone : nameA.bytes.length = 1 := rfl
  rw [Route.toPath, hpieces]
  rw [hone] at hlength
  simp only [Route.ofLocation, Route.fromRoot, if_true, List.length_append, List.length_singleton]
  omega

theorem isDirectory_nest (depth : Nat) :
    FileSystem.IsDirectory ⟨nest depth, sorted_nest depth⟩ (List.replicate depth nameA) := by
  rw [FileSystem.isDirectory_iff_exists_inside?]
  refine ⟨.nil, FileSystem.inside?_eq_some_iff.2 ?_⟩
  rw [List.reverse_replicate]
  exact reach?_nest depth 0

/-- Directories `A`, each in the one before, seen from the deepest, which has no room for a
marker in the path that leads to it. -/
def ravine : Context where
  files := ⟨nest 2044, sorted_nest 2044⟩
  cwd := .live (List.replicate 2044 nameA)
  housed := isDirectory_nest 2044

theorem eq_of_node?_nest {depth : Nat} {names : List Name} {node : Node}
    (h : (nest depth).node? names = some node) : ∀ name ∈ names, name = nameA := by
  induction depth generalizing names with
  | zero =>
      cases names with
      | nil => exact List.forall_mem_nil _
      | cons first rest => cases h
  | succ depth ih =>
      cases names with
      | nil => exact List.forall_mem_nil _
      | cons first rest =>
          rw [Contents.node?_cons, nest, Contents.find?] at h
          split at h
          next inside hinside =>
            split at hinside
            next hfirst =>
              cases hinside
              exact List.forall_mem_cons.2 ⟨hfirst.symm, ih h⟩
            next => cases hinside
          next hinside => split at hinside <;> cases hinside
          next => cases h

theorem inodes_nest (depth : Nat) : (nest depth).inodes = [] := by
  induction depth with
  | zero => rfl
  | succ depth ih => rw [nest, Contents.inodes, ih]; rfl

theorem ravine_isPlain : ravine.files.IsPlain := by
  refine FileSystem.isPlain_of_inodes ?_
  have hnone : ravine.files.root.inodes = [] := inodes_nest 2044
  rw [hnone]
  exact List.forall_mem_nil _

/-- The empty path says to make the marker in the working directory. -/
theorem spot_marker (hcwd : context.cwd.lost = 0) :
    context.spot marker = .ok (context.cwd.base, markerName) := by
  have hsteps : marker.steps = [.down markerName.toComponent] :=
    Path.steps_component markerName.toComponent
  have hhere : context.here.place = context.cwd :=
    (FileSystem.position_of_isDirectory context.housed).2
  have hwalk : context.walkFrom true marker [] = .ok (.directory context.cwd) := by
    refine walkFrom_eq_ok_iff.2 ⟨by decide, ?_⟩
    rw [walk_nil, ← hhere]
    rfl
  have hname : markerName.toComponent.nameAt context.cwd.lost = .ok markerName :=
    Component.nameAt_eq_ok_iff.2 ⟨hcwd, rfl⟩
  rw [spot, lookupParent, hsteps, List.dropLast_singleton, hwalk]
  dsimp only [List.getLast?_singleton]
  rw [hname]

theorem ravine_no_marker (base : Location) :
    ravine.files.node? (markerName :: base) = none := by
  rw [Option.eq_none_iff_forall_ne_some]
  intro node hnode
  have hname : markerName = nameA := eq_of_node?_nest hnode markerName (by simp)
  revert hname
  decide

/-- In a directory that is found by its path, but is too deep for the path of the marker, a
library is made by the empty path. It is not found from this directory. -/
theorem ravine_findLibrary :
    ravine.files.IsPlain ∧ ravine.cwd.lost = 0 ∧
    ravine.absolute ⟨[]⟩ = .ok (.ofLocation ravine.cwd.base) ∧
    ravine.lookup (Route.ofLocation ravine.cwd.base).toPath = .ok (.directory ravine.cwd) ∧
    ∃ after, ravine.initLibrary ⟨[]⟩ = .ok after ∧ after.findLibrary ⟨[]⟩ = .ok none := by
  have hlength : (Route.ofLocation ravine.cwd.base).toPath.bytes.length = 4088 :=
    length_toPath_replicate 2043
  have hlong : ((Route.ofLocation ravine.cwd.base).toPath.join marker).isTooLong = true := by
    have hne : (Route.ofLocation ravine.cwd.base).toPath.bytes ≠ [] :=
      List.ne_nil_of_length_pos (by omega)
    apply Path.isTooLong_join_of_lt hne (by decide)
    rw [hlength, pathLimit]
    decide
  have hshort : ¬(Route.ofLocation ravine.cwd.base).toPath.isTooLong = true := by
    rw [Path.isTooLong, decide_eq_true_eq, pathLimit]
    omega
  have hlive : ravine.cwd.lost = 0 := rfl
  have hroute : ravine.absolute ⟨[]⟩ = .ok (.ofLocation ravine.cwd.base) :=
    absolute_of_empty hlive rfl
  refine ⟨ravine_isPlain, hlive, hroute, ?_, ?_⟩
  · rw [lookup_toPath_ofLocation hlive ravine.housed, if_neg hshort]
    rfl
  · have hfree := ravine_no_marker ravine.cwd.base
    have hspot : ravine.spot (Path.join ⟨[]⟩ marker) = .ok (ravine.cwd.base, markerName) := by
      rw [Path.empty_join rfl, spot_marker hlive]
    obtain ⟨after, hmade⟩ := exists_addNode .directory ravine.housed hfree
    have hsame := findLibrary_eq_of_not_leads ravine_isPlain hlive hmade hroute
      fun hleads => hleads.2 hlong
    have hnearest : (Route.ofLocation ravine.cwd.base).Nearest
        (fun path => ravine.isLibrary path = true) none := by
      refine .absent ?_
      intro outer houter hlibrary
      obtain ⟨base, _, hmarker, _⟩ :=
        (isLibrary_toPath_iff ravine_isPlain hlive houter.absolute).1 hlibrary
      rw [FileSystem.IsDirectory, ravine_no_marker] at hmarker
      cases hmarker
    refine ⟨after, initLibrary_of_addNode hspot hmade, ?_⟩
    rw [hsame]
    exact findLibrary_eq_ok_iff.2 ⟨_, hroute, hnearest⟩

end Context

end LinkTags
