import LinkTags.Proofs.FileSystem.Carry

/-!
# What is there

A path names something if the directory that its other steps lead to has an entry under the
name that its last step goes down by (`isThere_iff_of_spot`), whatever is in this entry. So a
path that leads somewhere has a spot (`exists_spot_of_walkFrom`).
-/

namespace LinkTags.Context

variable {less more context : Context} {path : Path} {above : Location} {name : Name}

/-- The path names something. -/
def IsThere (context : Context) (path : Path) : Prop :=
  ∃ id, context.identity path = .ok id

theorem isThere_iff : context.IsThere path ↔ ∃ found, context.lookupEntry path = .ok found := by
  unfold IsThere identity
  cases context.lookupEntry path with
  | error e => simp
  | ok found => simp

/-- What is there is there with more in the tree. -/
theorem IsThere.mono (h : less.IsThere path) (hwithin : less.Within more) :
    more.IsThere path := by
  rw [isThere_iff] at h ⊢
  obtain ⟨found, hfound⟩ := h
  exact ⟨found, hwithin.walkFrom hfound⟩

/-- The last step of a path to a spot is walked in the directory of the spot. -/
theorem walkFrom_last_of_spot (h : context.spot path = .ok (above, name)) :
    ∃ left final, context.files.IsTrail final.trail ∧ final.place = .live above ∧
      ∀ followLast, context.walkFrom followLast path path.steps =
        walk context.files followLast left final [.down name.toComponent] := by
  obtain ⟨hfront, hlast⟩ := walkFrom_of_spot h
  obtain ⟨⟨hzero, hne, hshort⟩, hwalk⟩ := walkFrom_eq_ok_iff.1 hfront
  obtain ⟨front, hsteps⟩ := List.getLast?_eq_some_iff.1 hlast
  rw [hsteps, List.dropLast_concat] at hwalk
  obtain ⟨left, final, hfinal, hplace, hmore⟩ :=
    walk_append (FileSystem.isTrail_origin context.isTrail_here path) hwalk
  refine ⟨left, final, hfinal, hplace, ?_⟩
  intro followLast
  rw [walkFrom, if_neg hzero, if_neg hne, if_neg hshort, hsteps]
  exact hmore followLast _ (List.cons_ne_nil _ _)

theorem walkFrom_directory_of_spot (h : context.spot path = .ok (above, name))
    (hdirectory : context.files.IsDirectory (name :: above)) (followLast : Bool) :
    context.walkFrom followLast path path.steps = .ok (.directory (.live (name :: above))) := by
  obtain ⟨left, final, hfinal, hplace, hwalk⟩ := walkFrom_last_of_spot h
  obtain rfl : final.place.base = above := congrArg Place.base hplace
  have hlost : final.lost = 0 := congrArg Place.lost hplace
  rw [hwalk, walk_down_directory hfinal hlost hdirectory]

/-- A path to a spot leads somewhere only if there is an entry at the spot. -/
theorem exists_node_of_walkFrom {followLast : Bool} {found : Found}
    (hspot : context.spot path = .ok (above, name))
    (h : context.walkFrom followLast path path.steps = .ok found) :
    ∃ node, context.files.node? (name :: above) = some node := by
  obtain ⟨left, final, hfinal, hplace, hwalk⟩ := walkFrom_last_of_spot hspot
  obtain rfl : final.place.base = above := congrArg Place.base hplace
  rw [hwalk, walk_down] at h
  have hchild : ∀ own item, final.child context.files name.toComponent = .ok (own, item) →
      ∃ node, context.files.node? (name :: final.place.base) = some node := by
    intro own item hown
    obtain ⟨_, hname, _⟩ := (child_eq_ok_iff hfinal).1 hown
    obtain rfl := Name.toComponent_inj hname
    exact ⟨_, node?_of_child hfinal hown⟩
  split at h
  · contradiction
  next own inside hown => exact hchild own _ hown
  next own inode hown => exact hchild own _ hown

/-- A path to a spot names something if there is an entry at the spot. -/
theorem isThere_iff_of_spot (h : context.spot path = .ok (above, name)) :
    context.IsThere path ↔ ∃ node, context.files.node? (name :: above) = some node := by
  rw [isThere_iff]
  constructor
  · rintro ⟨found, hfound⟩
    exact exists_node_of_walkFrom h hfound
  · rintro ⟨node, hnode⟩
    cases node with
    | directory => exact ⟨_, walkFrom_directory_of_spot h hnode false⟩
    | file inode =>
        obtain ⟨left, final, hfinal, hplace, hwalk⟩ := walkFrom_last_of_spot h
        obtain rfl : final.place.base = above := congrArg Place.base hplace
        have hlost : final.lost = 0 := congrArg Place.lost hplace
        refine ⟨.file final.place.base name inode, ?_⟩
        rw [lookupEntry, hwalk, walk_down_file hfinal hlost hnode]

/-- What comes before the last step of a path leads to the directory of the spot. -/
theorem spot_of_walkFrom (hlast : path.steps.getLast? = some (.down name.toComponent))
    (h : context.walkFrom true path path.steps.dropLast = .ok (.directory (.live above))) :
    context.spot path = .ok (above, name) := by
  have hparent : context.lookupParent path = .ok (.live above, name.toComponent) := by
    rw [lookupParent, h, hlast]
  have hname : name.toComponent.nameAt (Place.live above).lost = .ok name :=
    Component.nameAt_eq_ok_iff.2 ⟨rfl, rfl⟩
  rw [spot, hparent]
  dsimp only
  rw [hname]
  rfl

/-- The spot of a path stays with more in the tree. -/
theorem spot_mono (hwithin : less.Within more) (h : less.spot path = .ok (above, name)) :
    more.spot path = .ok (above, name) := by
  obtain ⟨hfront, hlast⟩ := walkFrom_of_spot h
  exact spot_of_walkFrom hlast (hwithin.walkFrom hfront)

/-- A path that leads somewhere, and whose last step goes down, has a spot. -/
theorem exists_spot_of_walkFrom {followLast : Bool} {component : Component} {found : Found}
    (hlast : path.steps.getLast? = some (.down component))
    (h : context.walkFrom followLast path path.steps = .ok found) :
    ∃ above name, context.spot path = .ok (above, name) := by
  obtain ⟨hpath, hwalk⟩ := walkFrom_eq_ok_iff.1 h
  obtain ⟨front, hsteps⟩ := List.getLast?_eq_some_iff.1 hlast
  have horigin := FileSystem.isTrail_origin context.isTrail_here path
  rw [hsteps] at hwalk
  obtain ⟨place, hfront⟩ := walk_of_append (List.cons_ne_nil _ _) hwalk
  obtain ⟨left, final, hfinal, rfl, hmore⟩ := walk_append horigin hfront
  rw [hmore followLast _ (List.cons_ne_nil _ _)] at hwalk
  obtain ⟨name, rfl⟩ := exists_name_of_walk hfinal hwalk List.mem_cons_self
  have hlive : final.place = .live final.place.base :=
    congrArg (Place.mk _) (lost_of_walk_down hfinal hwalk)
  refine ⟨final.place.base, name, spot_of_walkFrom hlast ?_⟩
  rw [hsteps, List.dropLast_concat, ← hlive]
  exact walkFrom_eq_ok_iff.2 ⟨hpath, hfront⟩

/-- What a path leads to is there. -/
theorem isThere_of_lookup {component : Component} {found : Found}
    (hlast : path.steps.getLast? = some (.down component))
    (h : context.lookup path = .ok found) : context.IsThere path := by
  obtain ⟨above, name, hspot⟩ := exists_spot_of_walkFrom hlast h
  exact (isThere_iff_of_spot hspot).2 (exists_node_of_walkFrom hspot h)

end LinkTags.Context
