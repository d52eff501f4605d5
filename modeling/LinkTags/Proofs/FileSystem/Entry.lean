import LinkTags.Proofs.FileSystem.Walk

/-!
# What paths name

A path that names a file ends in the name of an entry, and the file is there under that
name (`lookupEntry_eq_file`). A path to a directory joined with a component names a spot
in that directory (`spot_join`), where an entry can be added or is found. If the joined path
leads anywhere, then the path before leads to a directory (`exists_lookup_of_join`).
-/

namespace LinkTags

variable {files : FileSystem}

theorem Name.toComponent_inj {a b : Name} (h : a.toComponent = b.toComponent) : a = b :=
  Name.ext_bytes (congrArg Component.bytes h)

theorem Component.nameAt_eq_ok_iff {component : Component} {lost : Nat} {name : Name} :
    component.nameAt lost = .ok name ↔ lost = 0 ∧ name.toComponent = component := by
  unfold nameAt
  split
  next hlost => simp [hlost]
  next hlost =>
    constructor
    · intro h
      split at h
      next found hfound =>
        cases h
        unfold Name.ofComponent? at hfound
        split at hfound
        · cases hfound
          exact ⟨by simpa using hlost, rfl⟩
        · contradiction
      next => contradiction
    · rintro ⟨_, rfl⟩
      simp

/-- What a directory walked to has under a component is what is one name below it. -/
theorem child_eq_ok_iff {position : Position} (hposition : files.IsTrail position.trail)
    {component : Component} {name : Name} {item : Item} :
    position.child files component = .ok (name, item) ↔
      position.lost = 0 ∧ name.toComponent = component ∧
        files.item? (name :: position.place.base) = some item := by
  constructor
  · intro h
    rw [Position.child_eq hposition] at h
    split at h
    · contradiction
    next found hfound =>
      split at h
      next other hother =>
        cases h
        obtain ⟨hlost, hname⟩ := Component.nameAt_eq_ok_iff.1 hfound
        exact ⟨hlost, hname, hother⟩
      · contradiction
  · rintro ⟨hlost, rfl, hitem⟩
    exact child_eq_ok hposition hlost hitem

theorem node?_of_child {position : Position} (hposition : files.IsTrail position.trail)
    {component : Component} {name : Name} {item : Item}
    (h : position.child files component = .ok (name, item)) :
    files.node? (name :: position.place.base) = some item.node := by
  obtain ⟨_, _, hitem⟩ := (child_eq_ok_iff hposition).1 h
  rw [FileSystem.node?, hitem]
  rfl

/-! ## The end of a walk -/

/-- A walk that ends at a file finds it as an entry of a directory. If links at the end
are not followed, the name of the entry is the last step. -/
theorem walk_eq_file {followLast : Bool} {links : Nat} {position : Position} {steps : List Step}
    {above : Location} {name : Name} {inode : Inode} (hposition : files.IsTrail position.trail)
    (h : walk files followLast links position steps = .ok (.file above name inode)) :
    files.node? (name :: above) = some (.file inode) ∧
      (followLast = false → steps.getLast? = some (.down name.toComponent)) := by
  induction links, position, steps using walk_induction files with
  | nil links position =>
      rw [walk_nil] at h
      cases h
  | stay links position rest ih =>
      rw [walk_stay] at h
      obtain ⟨hnode, hlast⟩ := ih hposition h
      exact ⟨hnode, fun hfollow => by simp [List.getLast?_cons, hlast hfollow]⟩
  | up links position rest ih =>
      rw [walk_up] at h
      obtain ⟨hnode, hlast⟩ := ih hposition.above h
      exact ⟨hnode, fun hfollow => by simp [List.getLast?_cons, hlast hfollow]⟩
  | down links position component rest ihEnter ihJump =>
      rw [walk_down] at h
      split at h
      · contradiction
      next entered inside hchild =>
        obtain ⟨hnode, hlast⟩ := ihEnter entered inside hchild (hposition.enter hchild) h
        exact ⟨hnode, fun hfollow => by simp [List.getLast?_cons, hlast hfollow]⟩
      next found own hchild =>
        have hfound : files.node? (found :: position.place.base) = some (.file own) :=
          node?_of_child hposition hchild
        obtain ⟨_, rfl, _⟩ := (child_eq_ok_iff hposition).1 hchild
        split at h
        next target hkind =>
          split at h
          next hend =>
            cases h
            exact ⟨hfound, fun _ => by simp [hend.1]⟩
          next hmore =>
            cases links with
            | zero => contradiction
            | succ links =>
                obtain ⟨hnode, hlast⟩ :=
                  ihJump links target rfl (FileSystem.isTrail_origin hposition target) h
                refine ⟨hnode, fun hfollow => ?_⟩
                -- The link is replaced, so the last step is one of those after it.
                have hrest : rest ≠ [] := fun hnil => hmore ⟨hnil, hfollow⟩
                have hsteps := hlast hfollow
                rw [List.getLast?_append, Option.or_of_isSome (by simpa using hrest)] at hsteps
                simp [List.getLast?_cons, hsteps]
        next =>
          split at h
          next hend =>
            cases h
            exact ⟨hfound, fun _ => by simp [hend]⟩
          next => contradiction

/-- A regular file at the end of a walk is found as well if links at the end are followed. -/
theorem walk_follow_of_regular {links : Nat} {position : Position} {steps : List Step}
    {above : Location} {name : Name} {inode : Inode} (hregular : inode.kind = .regular)
    (h : walk files false links position steps = .ok (.file above name inode)) :
    walk files true links position steps = .ok (.file above name inode) := by
  induction links, position, steps using walk_induction files with
  | nil links position =>
      rw [walk_nil] at h
      cases h
  | stay links position rest ih =>
      rw [walk_stay] at h ⊢
      exact ih h
  | up links position rest ih =>
      rw [walk_up] at h ⊢
      exact ih h
  | down links position component rest ihEnter ihJump =>
      rw [walk_down] at h ⊢
      split at h
      · contradiction
      next entered inside hchild => exact ihEnter entered inside hchild h
      next found own hchild =>
        split at h
        next target hkind =>
          split at h
          · cases h
            rw [hregular] at hkind
            contradiction
          · rw [if_neg (by simp)]
            cases links with
            | zero => contradiction
            | succ links => exact ihJump links target rfl h
        next => exact h

/-- What comes before further steps leads to a directory. -/
theorem walk_of_append {followLast : Bool} {links : Nat} {position : Position}
    {steps more : List Step} {found : Found} (hne : more ≠ [])
    (h : walk files followLast links position (steps ++ more) = .ok found) :
    ∃ place, walk files true links position steps = .ok (.directory place) := by
  induction links, position, steps using walk_induction files with
  | nil links position => exact ⟨position.place, walk_nil links true position⟩
  | stay links position rest ih =>
      rw [List.cons_append, walk_stay] at h
      rw [walk_stay]
      exact ih h
  | up links position rest ih =>
      rw [List.cons_append, walk_up] at h
      rw [walk_up]
      exact ih h
  | down links position component rest ihEnter ihJump =>
      rw [List.cons_append, walk_down] at h
      rw [walk_down]
      split at h
      · contradiction
      next entered inside hchild =>
        exact ihEnter entered inside hchild h
      next name inode hchild =>
        split at h
        next target hkind =>
          rw [if_neg (by simp [hne])] at h
          rw [if_neg (by simp)]
          cases links with
          | zero => contradiction
          | succ links =>
              rw [jump, ← List.append_assoc] at h
              exact ihJump links target rfl h
        next => simp [hne] at h

/-- Nothing leads on from a file. -/
theorem walk_append_of_file {links : Nat} {position : Position} {steps more : List Step}
    {above : Location} {name : Name} {inode : Inode} (hne : more ≠ []) (followLast : Bool)
    (h : walk files true links position steps = .ok (.file above name inode)) :
    walk files followLast links position (steps ++ more) = .error .notADirectory := by
  induction links, position, steps using walk_induction files with
  | nil links position =>
      rw [walk_nil] at h
      cases h
  | stay links position rest ih =>
      rw [walk_stay] at h
      rw [List.cons_append, walk_stay, ih h]
  | up links position rest ih =>
      rw [walk_up] at h
      rw [List.cons_append, walk_up, ih h]
  | down links position component rest ihEnter ihJump =>
      rw [walk_down] at h
      rw [List.cons_append, walk_down]
      split at h
      · contradiction
      next entered inside hchild => exact ihEnter entered inside hchild h
      next found own hchild =>
        split at h
        next target hkind =>
          rw [if_neg (by simp)] at h
          rw [if_neg (by simp [hne])]
          cases links with
          | zero => contradiction
          | succ links =>
              rw [jump, ← List.append_assoc]
              exact ihJump links target rfl h
        next => exact if_neg (by simp [hne])

/-- A walk that ends has found every name it went down by. -/
theorem exists_name_of_walk {followLast : Bool} {links : Nat} {position : Position}
    {steps : List Step} {found : Found} {component : Component}
    (hposition : files.IsTrail position.trail)
    (h : walk files followLast links position steps = .ok found)
    (hmem : .down component ∈ steps) : ∃ name : Name, name.toComponent = component := by
  induction links, position, steps using walk_induction files with
  | nil links position => contradiction
  | stay links position rest ih =>
      rw [walk_stay] at h
      exact ih hposition h (by simpa using hmem)
  | up links position rest ih =>
      rw [walk_up] at h
      exact ih hposition.above h (by simpa using hmem)
  | down links position first rest ihEnter ihJump =>
      rw [walk_down] at h
      split at h
      · contradiction
      next name inside hchild =>
        rcases List.mem_cons.1 hmem with hfirst | hrest
        · cases hfirst
          exact ⟨name, ((child_eq_ok_iff hposition).1 hchild).2.1⟩
        · exact ihEnter name inside hchild (hposition.enter hchild) h hrest
      next name inode hchild =>
        rcases List.mem_cons.1 hmem with hfirst | hrest
        · cases hfirst
          exact ⟨name, ((child_eq_ok_iff hposition).1 hchild).2.1⟩
        · have hmore : rest ≠ [] := List.ne_nil_of_mem hrest
          split at h
          next target hkind =>
            rw [if_neg (by simp [hmore])] at h
            cases links with
            | zero => contradiction
            | succ links =>
                exact ihJump links target rfl (FileSystem.isTrail_origin hposition target) h
                  (List.mem_append_right _ hrest)
          next => simp [hmore] at h

/-- Only in a directory of the tree can a step go down. -/
theorem lost_of_walk_down {followLast : Bool} {links : Nat}
    {position : Position} {component : Component} {rest : List Step} {found : Found}
    (hposition : files.IsTrail position.trail)
    (h : walk files followLast links position (.down component :: rest) = .ok found) :
    position.lost = 0 := by
  rw [walk_down] at h
  split at h
  · contradiction
  next name inside hchild => exact ((child_eq_ok_iff hposition).1 hchild).1
  next name inode hchild => exact ((child_eq_ok_iff hposition).1 hchild).1

/-! ## Paths -/

/-- A path whose last step goes down ends in that name. -/
theorem Path.fileName?_of_getLast? {path : Path} {component : Component}
    (h : path.steps.getLast? = some (.down component)) : path.fileName? = some component := by
  obtain ⟨front, hfront⟩ := List.getLast?_eq_some_iff.1 h
  simp [fileName?, moves, hfront]

/-- A path joined with a component has the step down as its last. -/
theorem Path.getLast?_steps_join (base : Path) (component : Component) :
    (base.join component.path).steps.getLast? = some (.down component) := by
  by_cases hne : base.bytes = []
  · rw [empty_join hne, steps_component]
    rfl
  · obtain ⟨front, _, hsteps⟩ := steps_join_component hne component
    rw [hsteps, List.getLast?_concat]

theorem Path.fileName?_join (base : Path) (component : Component) :
    (base.join component.path).fileName? = some component :=
  fileName?_of_getLast? (getLast?_steps_join base component)

namespace Context

variable {context after : Context}

/-- A path that names a file ends in the name of an entry, and the file is there. -/
theorem lookupEntry_eq_file {path : Path} {above : Location} {name : Name} {inode : Inode}
    (h : context.lookupEntry path = .ok (.file above name inode)) :
    context.files.node? (name :: above) = some (.file inode) ∧
      path.fileName? = some name.toComponent := by
  obtain ⟨_, hwalk⟩ := walkFrom_eq_ok_iff.1 h
  obtain ⟨hnode, hlast⟩ :=
    walk_eq_file (FileSystem.isTrail_origin context.isTrail_here path) hwalk
  exact ⟨hnode, Path.fileName?_of_getLast? (hlast rfl)⟩

/-- A path that names something ends in no component but a name. -/
theorem exists_name_of_lookupEntry {path : Path} {found : Found} {component : Component}
    (h : context.lookupEntry path = .ok found) (hname : path.fileName? = some component) :
    ∃ name : Name, name.toComponent = component := by
  obtain ⟨_, hwalk⟩ := walkFrom_eq_ok_iff.1 h
  have hmem : .down component ∈ path.steps := by
    unfold Path.fileName? at hname
    split at hname
    next last hlast =>
      cases hname
      exact (List.mem_filter.1 (List.mem_of_getLast? hlast)).1
    · contradiction
  exact exists_name_of_walk (FileSystem.isTrail_origin context.isTrail_here path) hwalk hmem

/-- A path that names a regular file leads to it. -/
theorem lookup_of_lookupEntry {path : Path} {above : Location} {name : Name} {inode : Inode}
    (hregular : inode.kind = .regular)
    (h : context.lookupEntry path = .ok (.file above name inode)) :
    context.lookup path = .ok (.file above name inode) := by
  obtain ⟨hpath, hwalk⟩ := walkFrom_eq_ok_iff.1 h
  exact walkFrom_eq_ok_iff.2 ⟨hpath, walk_follow_of_regular hregular hwalk⟩

/-- The spot of a path is in the directory that its other steps lead to, under the name that
its last step goes down by. -/
theorem walkFrom_of_spot {path : Path} {above : Location} {name : Name}
    (h : context.spot path = .ok (above, name)) :
    context.walkFrom true path path.steps.dropLast = .ok (.directory (.live above)) ∧
      path.steps.getLast? = some (.down name.toComponent) := by
  unfold spot at h
  split at h
  · contradiction
  next place component hparent =>
    split at h
    · contradiction
    next found hfound =>
      cases h
      obtain ⟨hlost, rfl⟩ := Component.nameAt_eq_ok_iff.1 hfound
      have hlive : place = .live place.base := congrArg (Place.mk _) hlost
      unfold lookupParent at hparent
      split at hparent
      · contradiction
      · contradiction
      next reached hwalk =>
        split at hparent
        next last hlast =>
          cases hparent
          rw [hlive] at hwalk
          exact ⟨hwalk, hlast⟩
        · contradiction

/-- The spot of a path is in a directory of the tree, under the name that the path ends in. -/
theorem spot_eq_ok {path : Path} {above : Location} {name : Name}
    (h : context.spot path = .ok (above, name)) :
    context.files.IsDirectory above ∧ path.fileName? = some name.toComponent ∧
      ¬path.isTooLong = true := by
  obtain ⟨hwalk, hlast⟩ := walkFrom_of_spot h
  obtain ⟨⟨_, _, hshort⟩, _⟩ := walkFrom_eq_ok_iff.1 hwalk
  exact ⟨isDirectory_of_walkFrom hwalk, Path.fileName?_of_getLast? hlast, hshort⟩

/-- A path to a directory joined with a component names a spot in this directory. -/
theorem spot_join {base : Path} {place : Place}
    (h : context.lookup base = .ok (.directory place)) (component : Component) :
    context.spot (base.join component.path) =
      if (0 : UInt8) ∈ component.bytes then .error .nulByte
      else if (base.join component.path).isTooLong = true then .error .nameTooLong
      else (component.nameAt place.lost).map fun name => (place.base, name) := by
  obtain ⟨hzero, hne, _, hwalk⟩ := walk_of_lookup h
  obtain ⟨front, hbase, hjoin⟩ := Path.steps_join_component hne component
  have hfull := Path.bytes_join_component_ne_nil hne component
  have hstart : (base.join component.path).origin context.here = base.origin context.here := by
    rw [Path.origin, Path.isAbsolute_join hne (Path.isAbsolute_component _)]
    rfl
  -- A last step that stays does not move on from the directory before it.
  have hfront : walk context.files true linkLimit (base.origin context.here) front =
      .ok (.directory place) := by
    rcases hbase with hbase | hbase
    · rwa [hbase] at hwalk
    · rw [hbase] at hwalk
      obtain ⟨reached, hreached⟩ := walk_of_append (List.cons_ne_nil _ _) hwalk
      obtain ⟨left, final, _, rfl, hmore⟩ :=
        walk_append (FileSystem.isTrail_origin context.isTrail_here base) hreached
      rw [hmore true [.stay] (List.cons_ne_nil _ _), walk_stay, walk_nil] at hwalk
      rwa [← hwalk]
  have hbytes : (0 : UInt8) ∈ (base.join component.path).bytes ↔ (0 : UInt8) ∈ component.bytes := by
    constructor
    · intro hmem
      exact Decidable.by_contra fun hnot =>
        Path.not_mem_bytes_join hne (Path.isAbsolute_component _) hzero (by decide) hnot hmem
    · intro hmem
      rw [Path.bytes_join_component hne]
      exact List.mem_append_right _ hmem
  unfold spot lookupParent walkFrom
  rw [hjoin, List.dropLast_concat, List.getLast?_concat, hstart, hfront]
  by_cases hnul : (0 : UInt8) ∈ component.bytes
  · simp only [hbytes, hnul, if_true]
  · by_cases hlong : (base.join component.path).isTooLong = true
    · simp only [hbytes, hnul, hfull, hlong, if_true, if_false]
    · simp only [hbytes, hnul, hfull, hlong, if_false, Bool.false_eq_true]
      cases component.nameAt place.lost <;> rfl

theorem spot_join_name {base : Path} {location : Location} {name : Name}
    (h : context.lookup base = .ok (.directory (.live location)))
    (hshort : ¬(base.join name.path).isTooLong = true) :
    context.spot (base.join name.path) = .ok (location, name) := by
  have hname : name.toComponent.nameAt 0 = .ok name := Component.nameAt_eq_ok_iff.2 ⟨rfl, rfl⟩
  rw [spot_join h, if_neg name.nonzero, if_neg hshort]
  exact congrArg (Except.map _) hname

/-- The spot is in the directory itself, which is in the tree. -/
theorem spot_join_eq_ok {base : Path} {place : Place}
    (h : context.lookup base = .ok (.directory place)) {component : Component} {above : Location}
    {name : Name} (hspot : context.spot (base.join component.path) = .ok (above, name)) :
    place = .live above ∧ name.toComponent = component := by
  rw [spot_join h] at hspot
  split at hspot
  · contradiction
  · split at hspot
    · contradiction
    · obtain ⟨base, lost⟩ := place
      cases hname : component.nameAt lost with
      | error e =>
          simp only [hname] at hspot
          contradiction
      | ok found =>
          obtain ⟨rfl, rfl⟩ := Component.nameAt_eq_ok_iff.1 hname
          simp only [hname] at hspot
          cases hspot
          exact ⟨rfl, rfl⟩

/-- A file that a path to a directory joined with a component names is in this directory. -/
theorem lookupEntry_join_eq_file {base : Path} {place : Place}
    (h : context.lookup base = .ok (.directory place)) {component : Component} {above : Location}
    {name : Name} {inode : Inode}
    (hentry : context.lookupEntry (base.join component.path) = .ok (.file above name inode)) :
    place = .live above ∧ name.toComponent = component := by
  obtain ⟨_, hname⟩ := lookupEntry_eq_file hentry
  rw [Path.fileName?_join] at hname
  cases hname
  obtain ⟨left, final, hfinal, rfl, hwalk⟩ := walkFrom_join h name
  have hjoin := hentry
  rw [lookupEntry, hwalk] at hjoin
  split at hjoin
  · contradiction
  · rw [walk_down] at hjoin
    split at hjoin
    · contradiction
    next inside _ => cases (walk_nil _ _ _).symm.trans hjoin
    next found own hchild =>
      obtain ⟨hlost, _⟩ := (child_eq_ok_iff hfinal).1 hchild
      have hplace : final.place = .live final.place.base := congrArg (Place.mk _) hlost
      split at hjoin
      · rw [if_pos ⟨rfl, rfl⟩] at hjoin
        cases hjoin
        exact ⟨hplace, rfl⟩
      · rw [if_pos rfl] at hjoin
        cases hjoin
        exact ⟨hplace, rfl⟩

/-! ## From a joined path to the path before -/

/-- What comes before the last component of a joined path is the path that it was joined
to, apart from a last step that stays. -/
theorem lookup_of_walkFrom_dropLast {path : Path} {place : Place} (hne : path.bytes ≠ [])
    (component : Component)
    (h : context.walkFrom true (path.join component.path)
      (path.join component.path).steps.dropLast = .ok (.directory place)) :
    context.lookup path = .ok (.directory place) := by
  obtain ⟨⟨hzero, _, hshort⟩, hwalk⟩ := walkFrom_eq_ok_iff.1 h
  obtain ⟨front, hsteps, hjoin⟩ := Path.steps_join_component hne component
  have hstart : (path.join component.path).origin context.here = path.origin context.here := by
    rw [Path.origin, Path.isAbsolute_join hne (Path.isAbsolute_component _)]
    rfl
  rw [hjoin, List.dropLast_concat, hstart] at hwalk
  refine walkFrom_eq_ok_iff.2 ⟨⟨?_, hne, ?_⟩, ?_⟩
  · intro hmem
    apply hzero
    rw [Path.bytes_join_component hne]
    exact List.mem_append_left _ (Path.mem_lead hmem)
  · exact fun hlong => hshort (Path.isTooLong_join hlong component)
  · rcases hsteps with hsteps | hsteps
    · rwa [hsteps]
    · obtain ⟨left, final, _, hplace, hmore⟩ :=
        walk_append (FileSystem.isTrail_origin context.isTrail_here path) hwalk
      rw [hsteps, hmore true [.stay] (List.cons_ne_nil _ _), walk_stay, walk_nil, hplace]

/-- A joined path that leads somewhere is that of a directory in the tree and something in
this directory. -/
theorem exists_lookup_of_join {path : Path} {name : Name} {found : Found}
    (hne : path.bytes ≠ [])
    (h : context.lookup (path.join name.path) = .ok found) :
    ∃ location, context.lookup path = .ok (.directory (.live location)) := by
  obtain ⟨hbytes, hwalk⟩ := walkFrom_eq_ok_iff.1 h
  obtain ⟨front, _, hjoin⟩ := Path.steps_join_component hne name.toComponent
  rw [hjoin] at hwalk
  obtain ⟨place, hfront⟩ := walk_of_append (List.cons_ne_nil _ _) hwalk
  have hpath : context.lookup path = .ok (.directory place) := by
    apply lookup_of_walkFrom_dropLast hne name.toComponent
    rw [hjoin, List.dropLast_concat]
    exact walkFrom_eq_ok_iff.2 ⟨hbytes, hfront⟩
  obtain ⟨left, final, hfinal, hplace, hlast⟩ := walkFrom_join hpath name
  have hdown := (hlast true).symm.trans h
  split at hdown
  · contradiction
  · have hlive : final.place = .live final.place.base :=
      congrArg (Place.mk _) (lost_of_walk_down hfinal hdown)
    rw [hpath, ← hplace, hlive]
    exact ⟨_, rfl⟩

/-- The spot that a joined path names is in the directory that the path leads to. -/
theorem lookup_of_spot_join {path : Path} {name own : Name} {above : Location}
    (hne : path.bytes ≠ [])
    (h : context.spot (path.join name.path) = .ok (above, own)) :
    context.lookup path = .ok (.directory (.live above)) :=
  lookup_of_walkFrom_dropLast hne name.toComponent (walkFrom_of_spot h).1

/-! ## Changes of one entry -/

theorem addNode_eq_ok {directory : Location} {name : Name} {node : Node}
    (h : context.addNode directory name node = .ok after) :
    after.cwd = context.cwd ∧ context.files.node? (name :: directory) = none ∧
      ∀ other, after.files.node? other =
        if other = name :: directory then some node else context.files.node? other := by
  unfold addNode at h
  split at h
  · contradiction
  next files hadd =>
    cases h
    exact ⟨rfl, (FileSystem.add_eq_ok_iff.1 ⟨files, hadd⟩).2, FileSystem.node?_add hadd⟩

theorem isDirectory_of_addNode {directory : Location} {name : Name} {node : Node}
    (h : context.addNode directory name node = .ok after) :
    context.files.IsDirectory directory := by
  unfold addNode at h
  split at h
  · contradiction
  next files hadd => exact (FileSystem.add_eq_ok_iff.1 ⟨files, hadd⟩).1

/-- A node can be added under a free name of a directory. -/
theorem exists_addNode {directory : Location} {name : Name} (node : Node)
    (hdirectory : context.files.IsDirectory directory)
    (hfree : context.files.node? (name :: directory) = none) :
    ∃ after, context.addNode directory name node = .ok after := by
  obtain ⟨files, hadd⟩ := FileSystem.add_eq_ok_iff.2 ⟨hdirectory, hfree⟩
  unfold addNode
  split
  next e herror => cases hadd.symm.trans herror
  next => exact ⟨_, rfl⟩

/-- Removing a link removes this entry, and nothing else. -/
theorem node?_eraseLink {location : Location} {inode : Inode}
    (h : context.files.node? location = some (.file inode)) (other : Location) :
    (context.eraseLink location).files.node? other =
      if other = location then none else context.files.node? other := by
  have hother : (other = location ∧ context.files.node? other ≠ some .directory) ↔
      other = location := by
    constructor
    · exact And.left
    · rintro rfl
      exact ⟨rfl, by simp [h]⟩
  rw [eraseLink, FileSystem.node?_erase]
  simp only [hother]

end Context

/-! ## Names of one letter -/

/-- A name of one letter. -/
def Name.letter (b : UInt8) (h : b ≠ slash ∧ b ≠ dot ∧ b ≠ 0) : Name where
  bytes := [b]
  proper := ⟨List.cons_ne_nil _ _, by simpa using h.1.symm, by simpa using h.2.1, by simp⟩
  short := by simp
  nonzero := by simpa using h.2.2.symm

namespace Context

/-- The name `A`. -/
def nameA : Name := .letter 0x41 (by decide)

/-- The name `B`. -/
def nameB : Name := .letter 0x42 (by decide)

/-- The name `L`. -/
def nameL : Name := .letter 0x4c (by decide)

/-- The name `s`. -/
def nameS : Name := .letter 0x73 (by decide)

/-- The name `x`. -/
def nameX : Name := .letter 0x78 (by decide)

end Context

end LinkTags
