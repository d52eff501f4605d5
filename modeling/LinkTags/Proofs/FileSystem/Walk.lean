import LinkTags.Proofs.Path.Join

/-!
# Walking on from a directory

A path that leads to a directory, joined with a name that is in this directory, leads
to what is there (`lookup_join_directory`, `lookupEntry_join_file`), unless the joined
path is too long to be looked up.

## Implementation notes

A walk that goes on after a directory is not the walk to this directory and a second
one: a symbolic link at the end of the first part is no longer at the end, and the
second part may replace only the links that the first has left. `walk_append` keeps
both apart, so that it has to be said only once that names which lead to directories
replace no links at all.
-/

namespace LinkTags

variable {files : FileSystem}

/-! ## Positions on the way -/

theorem FileSystem.IsTrail.above {position : Position} (h : files.IsTrail position.trail) :
    files.IsTrail position.above.trail := by
  obtain ⟨trail, lost⟩ := position
  cases lost with
  | zero =>
      cases trail with
      | nil => trivial
      | cons first rest => exact h.2
  | succ lost => exact h

theorem Position.place_above (position : Position) :
    position.above.place = position.place.above := by
  obtain ⟨trail, lost⟩ := position
  cases lost <;> simp [Position.above, Position.place, Place.above]

theorem FileSystem.IsTrail.enter {position : Position} (h : files.IsTrail position.trail)
    {component : Component} {name : Name} {inside : Contents}
    (hchild : position.child files component = .ok (name, .directory inside)) :
    files.IsTrail (position.enter name inside).trail := by
  refine ⟨?_, h⟩
  rw [Position.child_eq h] at hchild
  split at hchild
  · contradiction
  next found _ =>
    split at hchild
    next item hitem =>
      cases hchild
      exact FileSystem.inside?_eq_some_iff.2 hitem
    next => contradiction

theorem FileSystem.isTrail_origin {position : Position} (h : files.IsTrail position.trail)
    (path : Path) : files.IsTrail (path.origin position).trail := by
  unfold Path.origin
  split
  · trivial
  · exact h

/-- A directory that was walked to is in the tree, or was removed from one that is. -/
theorem isDirectory_place {position : Position} (h : files.IsTrail position.trail) :
    files.IsDirectory position.place.base :=
  FileSystem.isDirectory_iff_exists_inside?.2 ⟨_, FileSystem.inside?_base h⟩

/-! ## Walks -/

theorem walk_nil (links : Nat) (followLast : Bool) (position : Position) :
    walk files followLast links position [] = .ok (.directory position.place) := by
  cases links <;> rfl

theorem walk_stay (links : Nat) (followLast : Bool) (position : Position) (rest : List Step) :
    walk files followLast links position (.stay :: rest) =
      walk files followLast links position rest := by
  cases links <;> rfl

theorem walk_up (links : Nat) (followLast : Bool) (position : Position) (rest : List Step) :
    walk files followLast links position (.up :: rest) =
      walk files followLast links position.above rest := by
  cases links <;> rfl

/-- What the walk does at a symbolic link that it has to replace. -/
def jump (files : FileSystem) (followLast : Bool) (links : Nat) (position : Position)
    (steps : List Step) : Except FileError Found :=
  match links with
  | 0 => .error .tooManyLinks
  | left + 1 => walk files followLast left position steps

theorem walk_down (links : Nat) (followLast : Bool) (position : Position)
    (component : Component) (rest : List Step) :
    walk files followLast links position (.down component :: rest) =
      match position.child files component with
      | .error e => .error e
      | .ok (name, .directory inside) =>
          walk files followLast links (position.enter name inside) rest
      | .ok (name, .file inode) =>
          match inode.kind with
          | .symlink target =>
              if rest = [] ∧ followLast = false then .ok (.file position.place.base name inode)
              else jump files followLast links (target.origin position) (target.steps ++ rest)
          | _ =>
              if rest = [] then .ok (.file position.place.base name inode)
              else .error .notADirectory := by
  cases links <;> rfl

/-- A walk goes on with the rest of the steps, from a directory in this one, or from
where the target of a symbolic link begins, with one link less to replace. -/
theorem walk_induction (files : FileSystem) {motive : Nat → Position → List Step → Prop}
    (nil : ∀ links position, motive links position [])
    (stay : ∀ links position rest, motive links position rest →
      motive links position (.stay :: rest))
    (up : ∀ links position rest, motive links position.above rest →
      motive links position (.up :: rest))
    (down : ∀ links position component rest,
      (∀ name inside, position.child files component = .ok (name, .directory inside) →
        motive links (position.enter name inside) rest) →
      (∀ left (target : Path), links = left + 1 →
        motive left (target.origin position) (target.steps ++ rest)) →
      motive links position (.down component :: rest))
    (links : Nat) (position : Position) (steps : List Step) : motive links position steps := by
  have overSteps (links : Nat)
      (hjump : ∀ left (target : Path) position rest, links = left + 1 →
        motive left (target.origin position) (target.steps ++ rest))
      (position : Position) (steps : List Step) : motive links position steps := by
    induction steps generalizing position with
    | nil => exact nil links position
    | cons step rest ih =>
        cases step with
        | stay => exact stay links position rest (ih position)
        | up => exact up links position rest (ih position.above)
        | down component =>
            exact down links position component rest (fun name inside _ => ih _)
              fun left target h => hjump left target position rest h
  induction links generalizing position steps with
  | zero => exact overSteps 0 (by omega) position steps
  | succ links ih =>
      apply overSteps (links + 1)
      intro left target position rest h
      obtain rfl : links = left := by omega
      exact ih _ _

/-- A walk that went to a directory goes on from there, with some number of symbolic
links left to replace. -/
theorem walk_append {links : Nat} {position : Position} {place : Place} {steps : List Step}
    (hposition : files.IsTrail position.trail)
    (h : walk files true links position steps = .ok (.directory place)) :
    ∃ left final, files.IsTrail final.trail ∧ final.place = place ∧
      ∀ followLast more, more ≠ [] →
        walk files followLast links position (steps ++ more) =
          walk files followLast left final more := by
  induction links, position, steps using walk_induction files with
  | nil links position =>
      rw [walk_nil] at h
      cases h
      exact ⟨links, position, hposition, rfl, fun followLast more _ => rfl⟩
  | stay links position rest ih =>
      rw [walk_stay] at h
      obtain ⟨left, final, hfinal, hplace, hmore⟩ := ih hposition h
      refine ⟨left, final, hfinal, hplace, ?_⟩
      intro followLast more hne
      rw [List.cons_append, walk_stay, hmore followLast more hne]
  | up links position rest ih =>
      rw [walk_up] at h
      obtain ⟨left, final, hfinal, hplace, hmore⟩ := ih hposition.above h
      refine ⟨left, final, hfinal, hplace, ?_⟩
      intro followLast more hne
      rw [List.cons_append, walk_up, hmore followLast more hne]
  | down links position component rest ihEnter ihJump =>
      rw [walk_down] at h
      split at h
      · contradiction
      next name inside hchild =>
        obtain ⟨left, final, hfinal, hplace, hmore⟩ :=
          ihEnter name inside hchild (hposition.enter hchild) h
        refine ⟨left, final, hfinal, hplace, ?_⟩
        intro followLast more hne
        rw [List.cons_append, walk_down, hchild]
        exact hmore followLast more hne
      next name inode hchild =>
        split at h
        next target hkind =>
          rw [if_neg (by simp)] at h
          cases links with
          | zero => contradiction
          | succ links =>
              obtain ⟨left, final, hfinal, hplace, hmore⟩ :=
                ihJump links target rfl (FileSystem.isTrail_origin hposition target) h
              refine ⟨left, final, hfinal, hplace, ?_⟩
              intro followLast more hne
              -- The link is not at the end any more, so it is replaced in any case.
              have hend : ¬(rest ++ more = [] ∧ followLast = false) := by simp [hne]
              rw [List.cons_append, walk_down, hchild]
              simp only [hkind, if_neg hend, jump, ← List.append_assoc]
              exact hmore followLast more hne
        next => split at h <;> cases h

/-- A step that stays can be left out before further steps. -/
theorem walk_append_stay {more : List Step} (hne : more ≠ []) (followLast : Bool) (links : Nat)
    (position : Position) (steps : List Step) :
    walk files followLast links position (steps ++ .stay :: more) =
      walk files followLast links position (steps ++ more) := by
  induction links, position, steps using walk_induction files with
  | nil links position => exact walk_stay links followLast position more
  | stay links position rest ih => simp only [List.cons_append, walk_stay, ih]
  | up links position rest ih => simp only [List.cons_append, walk_up, ih]
  | down links position component rest ihEnter ihJump =>
      simp only [List.cons_append, walk_down]
      split
      · rfl
      next name inside hchild => exact ihEnter name inside hchild
      next name inode hchild =>
        split
        next target hkind =>
          rw [if_neg (by simp), if_neg (by simp [hne])]
          cases links with
          | zero => rfl
          | succ links => simpa [jump] using ihJump links target rfl
        next => simp [hne]

/-! ## One name more -/

variable {final : Position} {name : Name}

theorem child_eq_ok {item : Item} (hfinal : files.IsTrail final.trail) (hlost : final.lost = 0)
    (hitem : files.item? (name :: final.place.base) = some item) :
    final.child files name.toComponent = .ok (name, item) := by
  have hname : name.toComponent.nameAt final.lost = .ok name := by
    simp [Component.nameAt, hlost]
  rw [Position.child_eq hfinal, hname]
  simp only [hitem]

theorem walk_down_directory (hfinal : files.IsTrail final.trail) (hlost : final.lost = 0)
    (h : files.IsDirectory (name :: final.place.base)) (followLast : Bool) (links : Nat) :
    walk files followLast links final [.down name.toComponent] =
      .ok (.directory (.live (name :: final.place.base))) := by
  obtain ⟨inside, hinside⟩ := FileSystem.isDirectory_iff_exists_inside?.1 h
  have hitem := FileSystem.inside?_eq_some_iff.1 hinside
  rw [walk_down, child_eq_ok hfinal hlost hitem]
  exact walk_nil links followLast _

theorem walk_down_file {inode : Inode} (hfinal : files.IsTrail final.trail)
    (hlost : final.lost = 0) (h : files.node? (name :: final.place.base) = some (.file inode))
    (links : Nat) :
    walk files false links final [.down name.toComponent] =
      .ok (.file final.place.base name inode) := by
  obtain ⟨item, hitem, hnode⟩ := Option.map_eq_some_iff.1 h
  cases item with
  | directory inside => cases hnode
  | file other =>
      cases hnode
      rw [walk_down, child_eq_ok hfinal hlost hitem]
      simp only [true_and, if_true]
      split <;> rfl

theorem walk_stays (followLast : Bool) (links : Nat) (position : Position) (count : Nat) :
    walk files followLast links position (List.replicate count .stay) =
      .ok (.directory position.place) := by
  induction count with
  | zero => exact walk_nil links followLast position
  | succ count ih => rw [List.replicate_succ, walk_stay, ih]

/-! ## Paths -/

namespace Context

variable {context : Context}

theorem isTrail_here (context : Context) : context.files.IsTrail context.here.trail :=
  (FileSystem.position_of_isDirectory context.housed).1

/-- Steps are walked for a path that is not empty and not too long, and holds no zero byte. -/
theorem walkFrom_eq_ok_iff {followLast : Bool} {path : Path} {steps : List Step} {found : Found} :
    context.walkFrom followLast path steps = .ok found ↔
      ((0 : UInt8) ∉ path.bytes ∧ path.bytes ≠ [] ∧ ¬path.isTooLong = true) ∧
        walk context.files followLast linkLimit (path.origin context.here) steps = .ok found := by
  unfold walkFrom
  by_cases hzero : (0 : UInt8) ∈ path.bytes
  · simp [hzero]
  by_cases hempty : path.bytes = []
  · simp [hempty]
  by_cases hlong : path.isTooLong = true
  · simp [hzero, hempty, hlong]
  · simp [hzero, hempty, hlong]

/-- A path that leads somewhere is not empty and not too long, and holds no zero byte. -/
theorem walk_of_lookup {path : Path} {found : Found} (h : context.lookup path = .ok found) :
    (0 : UInt8) ∉ path.bytes ∧ path.bytes ≠ [] ∧ ¬path.isTooLong = true ∧
      walk context.files true linkLimit (path.origin context.here) path.steps = .ok found := by
  obtain ⟨⟨hzero, hne, hshort⟩, hwalk⟩ := walkFrom_eq_ok_iff.1 h
  exact ⟨hzero, hne, hshort, hwalk⟩

/-- The directory that steps lead to is in the tree, or was removed from one that is. -/
theorem isDirectory_of_walkFrom {path : Path} {steps : List Step} {place : Place}
    (h : context.walkFrom true path steps = .ok (.directory place)) :
    context.files.IsDirectory place.base := by
  obtain ⟨_, hwalk⟩ := walkFrom_eq_ok_iff.1 h
  obtain ⟨left, final, hfinal, rfl, _⟩ :=
    walk_append (FileSystem.isTrail_origin context.isTrail_here path) hwalk
  exact isDirectory_place hfinal

/-- The directory that a path leads to is in the tree, or was removed from one that is. -/
theorem isDirectory_of_lookup {path : Path} {place : Place}
    (h : context.lookup path = .ok (.directory place)) : context.files.IsDirectory place.base :=
  isDirectory_of_walkFrom h

/-- Slashes alone lead to the root, however many they are. -/
theorem lookup_slashes (context : Context) {count : Nat} (hcount : 0 < count)
    (hshort : count ≤ pathLimit) :
    context.lookup ⟨List.replicate count slash⟩ = .ok (.directory .root) := by
  have hzero : (0 : UInt8) ∉ List.replicate count slash := by simp [slash]
  have hne : List.replicate count slash ≠ [] := by simp; omega
  have hlimit : ¬Path.isTooLong ⟨List.replicate count slash⟩ = true := by
    simpa [Path.isTooLong] using hshort
  rw [lookup, walkFrom, if_neg hzero, if_neg hne, if_neg hlimit, Path.steps_slashes,
    walk_stays, Path.origin, if_pos (Path.isAbsolute_slashes hcount)]
  rfl

/-- A path to a directory joined with a component leads where the component leads from
there. -/
theorem walkFrom_join_component {base : Path} {place : Place}
    (h : context.lookup base = .ok (.directory place)) {component : Component}
    (hnonzero : (0 : UInt8) ∉ component.bytes) :
    ∃ left final, context.files.IsTrail final.trail ∧ final.place = place ∧
      ∀ followLast,
        context.walkFrom followLast (base.join component.path)
            (base.join component.path).steps =
          if (base.join component.path).isTooLong = true then .error .nameTooLong
          else walk context.files followLast left final [.down component] := by
  obtain ⟨hzero, hne, _, hwalk⟩ := walk_of_lookup h
  have horigin := FileSystem.isTrail_origin context.isTrail_here base
  obtain ⟨left, final, hfinal, hplace, hmore⟩ := walk_append horigin hwalk
  refine ⟨left, final, hfinal, hplace, ?_⟩
  intro followLast
  have hjoined : (0 : UInt8) ∉ (base.join component.path).bytes :=
    Path.not_mem_bytes_join hne (Path.isAbsolute_component _) hzero (by decide) hnonzero
  have hstart : (base.join component.path).origin context.here = base.origin context.here := by
    rw [Path.origin, Path.isAbsolute_join hne (Path.isAbsolute_component _)]
    rfl
  have hfull := Path.bytes_join_component_ne_nil hne component
  rw [walkFrom, if_neg hjoined, if_neg hfull, hstart]
  obtain ⟨front, hsteps, hjoin⟩ := Path.steps_join_component hne component
  rw [hjoin, ← hmore followLast [.down component] (by simp)]
  rcases hsteps with hsteps | hsteps
  · rw [hsteps]
  · rw [hsteps, List.append_assoc, List.singleton_append, walk_append_stay (by simp)]

/-- A path to a directory joined with a name leads where the name leads from there. -/
theorem walkFrom_join {base : Path} {place : Place}
    (h : context.lookup base = .ok (.directory place)) (name : Name) :
    ∃ left final, context.files.IsTrail final.trail ∧ final.place = place ∧
      ∀ followLast,
        context.walkFrom followLast (base.join name.path) (base.join name.path).steps =
          if (base.join name.path).isTooLong = true then .error .nameTooLong
          else walk context.files followLast left final [.down name.toComponent] :=
  walkFrom_join_component h name.nonzero

theorem lookup_join_directory {base : Path} {location : Location} {name : Name}
    (h : context.lookup base = .ok (.directory (.live location)))
    (hdirectory : context.files.IsDirectory (name :: location))
    (hshort : ¬(base.join name.path).isTooLong = true) :
    context.lookup (base.join name.path) = .ok (.directory (.live (name :: location))) := by
  obtain ⟨left, final, hfinal, hplace, hjoin⟩ := walkFrom_join h name
  have hbase : final.place.base = location := congrArg Place.base hplace
  have hlost : final.lost = 0 := congrArg Place.lost hplace
  rw [← hbase] at hdirectory ⊢
  rw [lookup, hjoin, if_neg hshort, walk_down_directory hfinal hlost hdirectory]

/-- A path to a directory leads on through names to a directory below it. -/
theorem lookup_through {base : Path} {location : Location} {names : List Name}
    (h : context.lookup base = .ok (.directory (.live location)))
    (hdirectory : context.files.IsDirectory (names.reverse ++ location))
    (hshort : ¬(base.through names).isTooLong = true) :
    context.lookup (base.through names) =
      .ok (.directory (.live (names.reverse ++ location))) := by
  induction names generalizing base location with
  | nil => exact h
  | cons name rest ih =>
      obtain ⟨_, hne, _, _⟩ := walk_of_lookup h
      have hnext := Path.bytes_join_component_ne_nil hne name.toComponent
      have hlength := Path.length_le_through hnext rest
      rw [Path.through_cons] at hshort ⊢
      rw [List.reverse_cons, List.append_assoc, List.singleton_append] at hdirectory ⊢
      apply ih (lookup_join_directory h ?_ ?_) hdirectory hshort
      · by_cases hrest : name :: location = rest.reverse ++ name :: location
        · rw [hrest]
          exact hdirectory
        · exact FileSystem.isDirectory_of_suffix hdirectory (List.suffix_append _ _) hrest
      · simp only [Path.isTooLong, decide_eq_true_eq, Nat.not_lt] at hshort ⊢
        exact Nat.le_trans hlength hshort

/-- From a path that leads somewhere, names lead nowhere by a path that is too long. -/
theorem lookup_through_of_tooLong {base : Path} {found : Found}
    (h : context.lookup base = .ok found) {names : List Name}
    (hlong : (base.through names).isTooLong = true) :
    context.lookup (base.through names) = .error .nameTooLong := by
  obtain ⟨hzero, hne, _, _⟩ := walk_of_lookup h
  have hthrough : (0 : UInt8) ∉ (base.through names).bytes :=
    Path.not_mem_bytes_through hne hzero (by decide) fun name _ => name.nonzero
  rw [lookup, walkFrom, if_neg hthrough, if_neg (Path.bytes_through_ne_nil hne names),
    if_pos hlong]

/-- What a path names that joins the path to a directory with a file in it. -/
theorem lookupEntry_join_file {base : Path} {location : Location} {name : Name} {inode : Inode}
    (h : context.lookup base = .ok (.directory (.live location)))
    (hnode : context.files.node? (name :: location) = some (.file inode)) :
    context.lookupEntry (base.join name.path) =
      if (base.join name.path).isTooLong = true then .error .nameTooLong
      else .ok (.file location name inode) := by
  obtain ⟨left, final, hfinal, hplace, hjoin⟩ := walkFrom_join h name
  have hbase : final.place.base = location := congrArg Place.base hplace
  have hlost : final.lost = 0 := congrArg Place.lost hplace
  rw [← hbase] at hnode ⊢
  rw [lookupEntry, hjoin, walk_down_file hfinal hlost hnode]

end Context

end LinkTags
