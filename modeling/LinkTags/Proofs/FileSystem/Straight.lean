import LinkTags.Proofs.FileSystem.Entry
import LinkTags.Proofs.FileSystem.Links
import LinkTags.Proofs.Path.Relative

/-!
# Ways without symbolic links

Steps lead straight from one directory to another if every name on the way is that of a
directory, so that no symbolic link is followed (`Straight`). Along such steps the lexical
reading of a path and its walk agree: the route of the directory is extended to the route
of the other one (`Straight.route`), and every walk comes to it, however many links it
could replace (`Straight.walk`). A walk that may replace no link at all goes straight
(`straight_of_walk`), and so does every walk where there is no symbolic link
(`FileSystem.IsPlain.straight_of_walk`).
-/

namespace LinkTags

/-- The steps lead from a directory to another through directories alone. -/
inductive FileSystem.Straight (files : FileSystem) : Location → List Step → Location → Prop where
  | nil (location : Location) : Straight files location [] location
  | stay {location last : Location} {rest : List Step} (h : Straight files location rest last) :
      Straight files location (.stay :: rest) last
  | up {location last : Location} {rest : List Step}
      (h : Straight files location.tail rest last) : Straight files location (.up :: rest) last
  | down {location last : Location} {name : Name} {rest : List Step}
      (hdirectory : files.IsDirectory (name :: location))
      (h : Straight files (name :: location) rest last) :
      Straight files location (.down name.toComponent :: rest) last

/-- The route to a location of the tree. -/
def Route.ofLocation (location : Location) : Route :=
  fromRoot (location.map Name.toComponent)

theorem Route.ofLocation_inj {a b : Location} (h : ofLocation a = ofLocation b) : a = b := by
  have hinjective (x y : Name) : x.toComponent = y.toComponent → x = y := Name.toComponent_inj
  exact (List.map_inj_right hinjective).1 (congrArg Route.names h)

variable {files : FileSystem} {first middle last : Location} {steps more : List Step}

namespace FileSystem.Straight

theorem append (h : files.Straight first steps middle) (hmore : files.Straight middle more last) :
    files.Straight first (steps ++ more) last := by
  induction h with
  | nil location => exact hmore
  | stay _ ih => exact .stay (ih hmore)
  | up _ ih => exact .up (ih hmore)
  | down hdirectory _ ih => exact .down hdirectory (ih hmore)

/-- A last step that stays can be left out. -/
theorem of_append_stay (h : files.Straight first (steps ++ [.stay]) last) :
    files.Straight first steps last := by
  induction steps generalizing first with
  | nil =>
      cases h with
      | stay hrest => exact hrest
  | cons step rest ih =>
      cases h with
      | stay hrest => exact .stay (ih hrest)
      | up hrest => exact .up (ih hrest)
      | down hdirectory hrest => exact .down hdirectory (ih hrest)

theorem stays (location : Location) (count : Nat) :
    files.Straight location (List.replicate count .stay) location := by
  induction count with
  | zero => exact .nil location
  | succ count ih => exact .stay ih

theorem climb (front location : Location) :
    files.Straight (front ++ location) (List.replicate front.length .up) location := by
  induction front with
  | nil => exact .nil location
  | cons name rest ih => exact .up ih

/-- The names on the way down to a directory are those of directories. -/
theorem descend {location : Location} {names : List Name}
    (h : files.IsDirectory (names.reverse ++ location)) :
    files.Straight location (names.map fun name => .down name.toComponent)
      (names.reverse ++ location) := by
  induction names generalizing location with
  | nil => exact .nil location
  | cons name rest ih =>
      rw [List.reverse_cons, List.append_assoc, List.singleton_append] at h ⊢
      refine .down ?_ (ih h)
      by_cases hrest : name :: location = rest.reverse ++ name :: location
      · rw [hrest]
        exact h
      · exact isDirectory_of_suffix h (List.suffix_append _ _) hrest

/-- The route of the first directory, extended by the steps, is that of the last one. -/
theorem route (h : files.Straight first steps last) :
    (Route.ofLocation first).followAll steps = Route.ofLocation last := by
  induction h with
  | nil location => rfl
  | stay _ ih => exact ih
  | @up location last rest _ ih =>
      rw [← ih]
      cases location <;> rfl
  | down _ _ ih => exact ih

/-- Every walk of the steps leads to the last directory. -/
theorem walk (h : files.Straight first steps last) {position : Position}
    (hposition : files.IsTrail position.trail) (hplace : position.place = .live first)
    (followLast : Bool) (links : Nat) :
    LinkTags.walk files followLast links position steps = .ok (.directory (.live last)) := by
  induction h generalizing position with
  | nil location => rw [walk_nil, hplace]
  | stay _ ih =>
      rw [walk_stay]
      exact ih hposition hplace
  | up _ ih =>
      rw [walk_up]
      apply ih hposition.above
      rw [Position.place_above, hplace]
      rfl
  | @down location last name rest hdirectory _ ih =>
      obtain ⟨inside, hinside⟩ := isDirectory_iff_exists_inside?.1 hdirectory
      have hlost : position.lost = 0 := congrArg Place.lost hplace
      have hbase : position.place.base = location := congrArg Place.base hplace
      rw [← hbase] at hinside
      have hchild := child_eq_ok hposition hlost (inside?_eq_some_iff.1 hinside)
      rw [walk_down, hchild]
      apply ih (hposition.enter hchild)
      rw [← hbase]
      rfl

end FileSystem.Straight

/-- A walk from a directory of the tree that may replace no links goes straight. -/
theorem straight_of_walk {position : Position} {place : Place}
    (hposition : files.IsTrail position.trail) (hlost : position.lost = 0)
    (h : walk files true 0 position steps = .ok (.directory place)) :
    place.lost = 0 ∧ files.Straight position.place.base steps place.base := by
  induction steps generalizing position with
  | nil =>
      rw [walk_nil] at h
      cases h
      exact ⟨hlost, .nil _⟩
  | cons step rest ih =>
      cases step with
      | stay =>
          rw [walk_stay] at h
          obtain ⟨hlive, hrest⟩ := ih hposition hlost h
          exact ⟨hlive, .stay hrest⟩
      | up =>
          rw [walk_up] at h
          have habove : position.above.place = .live position.place.base.tail := by
            have hplace : position.place = .live position.place.base := congrArg (Place.mk _) hlost
            rw [Position.place_above, hplace]
            rfl
          obtain ⟨hlive, hrest⟩ := ih hposition.above (congrArg Place.lost habove) h
          rw [habove] at hrest
          exact ⟨hlive, .up hrest⟩
      | down component =>
          rw [walk_down] at h
          split at h
          · contradiction
          next name inside hchild =>
            have hdirectory := node?_of_child hposition hchild
            obtain ⟨_, rfl, _⟩ := (child_eq_ok_iff hposition).1 hchild
            obtain ⟨hlive, hrest⟩ := ih (hposition.enter hchild) rfl h
            exact ⟨hlive, .down hdirectory hrest⟩
          next name inode hchild =>
            split at h
            · rw [if_neg (by simp)] at h
              contradiction
            · split at h <;> cases h

/-! ## Trees without symbolic links -/

/-- No file of the tree is a symbolic link. -/
def FileSystem.IsPlain (files : FileSystem) : Prop :=
  ∀ location inode target, files.node? location = some (.file inode) →
    inode.kind ≠ .symlink target

theorem FileSystem.isPlain_of_inodes
    (h : ∀ inode ∈ files.root.inodes, ∀ target, inode.kind ≠ .symlink target) :
    files.IsPlain :=
  fun _ inode target hnode => h inode (Contents.mem_inodes_of_node? hnode) target

/-- Where there is no symbolic link, a walk does not depend on how many it may replace. -/
theorem FileSystem.IsPlain.walk_eq (h : files.IsPlain) {followLast : Bool} {links : Nat}
    {position : Position} (hposition : files.IsTrail position.trail) :
    LinkTags.walk files followLast links position steps =
      LinkTags.walk files followLast 0 position steps := by
  induction links, position, steps using walk_induction files with
  | nil links position => rw [walk_nil, walk_nil]
  | stay links position rest ih => rw [walk_stay, walk_stay, ih hposition]
  | up links position rest ih => rw [walk_up, walk_up, ih hposition.above]
  | down links position component rest ihEnter _ =>
      rw [walk_down, walk_down]
      split
      · rfl
      next name inside hchild => exact ihEnter name inside hchild (hposition.enter hchild)
      next name inode hchild =>
        split
        next target hkind => exact absurd hkind (h _ inode target (node?_of_child hposition hchild))
        next => rfl

theorem FileSystem.IsPlain.straight_of_walk (h : files.IsPlain) {links : Nat}
    {position : Position} {place : Place} (hposition : files.IsTrail position.trail)
    (hlost : position.lost = 0)
    (hwalk : LinkTags.walk files true links position steps = .ok (.directory place)) :
    place.lost = 0 ∧ files.Straight position.place.base steps place.base := by
  rw [h.walk_eq hposition] at hwalk
  exact LinkTags.straight_of_walk hposition hlost hwalk

/-! ## Paths -/

namespace Context

variable {context : Context} {path : Path} {location : Location}

/-- Where the steps of a path begin, the working directory being part of the tree. -/
def start (context : Context) (path : Path) : Location :=
  if path.isAbsolute then [] else context.cwd.base

theorem place_origin (hcwd : context.cwd.lost = 0) (path : Path) :
    (path.origin context.here).place = .live (context.start path) := by
  unfold Path.origin start
  split
  · rfl
  · have hhere : context.here.place = context.cwd :=
      (FileSystem.position_of_isDirectory context.housed).2
    rw [hhere]
    exact congrArg (Place.mk _) hcwd

theorem start_join {base relative : Path} (hne : base.bytes ≠ [])
    (hrelative : relative.isAbsolute = false) :
    context.start (base.join relative) = context.start base := by
  unfold start
  rw [Path.isAbsolute_join hne hrelative]

/-- Steps that go straight on from the end of a path go straight from its start. -/
theorem straight_join {base relative : Path} (hne : base.bytes ≠ [])
    (hrelative : relative.isAbsolute = false)
    (hbase : context.files.Straight (context.start base) base.steps middle)
    (h : context.files.Straight middle relative.steps last) :
    context.files.Straight (context.start (base.join relative)) (base.join relative).steps
      last := by
  obtain ⟨front, hsteps, hjoin⟩ := Path.steps_join hne hrelative
  have hfront : context.files.Straight (context.start base) front middle := by
    rcases hsteps with hsteps | hsteps
    · rwa [← hsteps]
    · rw [hsteps] at hbase
      exact hbase.of_append_stay
  rw [start_join hne hrelative, hjoin]
  exact hfront.append h

theorem absolute_eq (hcwd : context.cwd.lost = 0) (path : Path) :
    context.absolute path =
      .ok ((Route.ofLocation (context.start path)).followAll path.steps) := by
  unfold absolute start
  rw [if_pos hcwd]
  split <;> rfl

/-- The route of a path that goes straight is that of the directory it leads to. -/
theorem absolute_of_straight (hcwd : context.cwd.lost = 0)
    (h : context.files.Straight (context.start path) path.steps location) :
    context.absolute path = .ok (.ofLocation location) := by
  rw [absolute_eq hcwd, h.route]

/-- A path that goes straight leads to its directory, unless it is too long. -/
theorem lookup_of_straight (hcwd : context.cwd.lost = 0) (hzero : (0 : UInt8) ∉ path.bytes)
    (hne : path.bytes ≠ [])
    (h : context.files.Straight (context.start path) path.steps location) :
    context.lookup path =
      if path.isTooLong = true then .error .nameTooLong
      else .ok (.directory (.live location)) := by
  have htrail := FileSystem.isTrail_origin context.isTrail_here path
  unfold lookup walkFrom
  rw [if_neg hzero, if_neg hne, h.walk htrail (place_origin hcwd path)]

/-! ## Paths in trees without symbolic links -/

section Plain

variable (hplain : context.files.IsPlain) (hcwd : context.cwd.lost = 0)

include hplain hcwd

theorem straight_of_walkFrom {place : Place}
    (h : context.walkFrom true path steps = .ok (.directory place)) :
    place.lost = 0 ∧ context.files.Straight (context.start path) steps place.base := by
  obtain ⟨_, hwalk⟩ := walkFrom_eq_ok_iff.1 h
  have hplace := place_origin hcwd path
  have htrail := FileSystem.isTrail_origin context.isTrail_here path
  have hstraight := hplain.straight_of_walk htrail (congrArg Place.lost hplace) hwalk
  rwa [hplace] at hstraight

/-- The route of a path that leads to a directory is that of the directory. -/
theorem absolute_of_lookup {place : Place}
    (h : context.lookup path = .ok (.directory place)) :
    place.lost = 0 ∧ context.absolute path = .ok (.ofLocation place.base) := by
  obtain ⟨hlost, hstraight⟩ := straight_of_walkFrom hplain hcwd h
  exact ⟨hlost, absolute_of_straight hcwd hstraight⟩

/-- The route of a path is that of the spot that it names. -/
theorem absolute_of_spot {above : Location} {name : Name}
    (h : context.spot path = .ok (above, name)) :
    context.absolute path = .ok (.ofLocation (name :: above)) := by
  obtain ⟨hwalk, hlast⟩ := walkFrom_of_spot h
  obtain ⟨front, hsteps⟩ := List.getLast?_eq_some_iff.1 hlast
  rw [hsteps, List.dropLast_concat] at hwalk
  obtain ⟨_, hstraight⟩ := straight_of_walkFrom hplain hcwd hwalk
  rw [absolute_eq hcwd, hsteps, Route.followAll_append, hstraight.route]
  rfl

end Plain

end Context

end LinkTags
