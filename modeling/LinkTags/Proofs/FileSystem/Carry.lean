import LinkTags.Proofs.FileSystem.Entry

/-!
# Walks in a changed tree

A walk goes through directories and replaces symbolic links, and looks at nothing else on
its way. If a change leaves these where they are, every path that led to a directory
leads there afterwards, and every path that named a file that is still there names it
(`walkFrom_of_carries`). If a tree has all that another has, then all that is found in the
other is found in it (`Context.Within`).
-/

namespace LinkTags

/-- A walk can go on from the node: a directory, or a symbolic link. -/
def Node.IsPassable : Node → Prop
  | .directory => True
  | .file inode => ∃ target, inode.kind = .symlink target

/-- Everything in one tree that a walk can go on from is in the other, at its place. -/
def FileSystem.Carries (files after : FileSystem) : Prop :=
  ∀ location node, node.IsPassable → files.node? location = some node →
    after.node? location = some node

/-- If something that was found is a file, then it is in the tree. -/
def Found.IsIn (found : Found) (files : FileSystem) : Prop :=
  match found with
  | .directory _ => True
  | .file above name inode => files.node? (name :: above) = some (.file inode)

variable {files after : FileSystem}

theorem FileSystem.Carries.trans (h : files.Carries after) {other : FileSystem}
    (hafter : after.Carries other) : files.Carries other := by
  intro location node hpassable hnode
  exact hafter location node hpassable (h location node hpassable hnode)

/-- One directory, walked to in both trees, where it may hold different things. -/
structure SamePlace (files after : FileSystem) (position other : Position) : Prop where
  trail : files.IsTrail position.trail
  trail' : after.IsTrail other.trail
  place : position.place = other.place

namespace SamePlace

variable {position other : Position}

theorem above (h : SamePlace files after position other) :
    SamePlace files after position.above other.above := by
  refine ⟨h.trail.above, h.trail'.above, ?_⟩
  rw [Position.place_above, Position.place_above, h.place]

theorem origin (h : SamePlace files after position other) (path : Path) :
    SamePlace files after (path.origin position) (path.origin other) := by
  unfold Path.origin
  split
  · exact ⟨trivial, trivial, rfl⟩
  · exact h

/-- What one directory has under a component is also in the other tree if the node is. -/
theorem exists_child (h : SamePlace files after position other) {component : Component}
    {name : Name} {item : Item} (hchild : position.child files component = .ok (name, item))
    (hnode : after.node? (name :: position.place.base) = some item.node) :
    ∃ item', other.child after component = .ok (name, item') ∧ item'.node = item.node := by
  obtain ⟨hlost, hname, _⟩ := (child_eq_ok_iff h.trail).1 hchild
  obtain ⟨item', hitem, hsame⟩ := Option.map_eq_some_iff.1 hnode
  have hother : other.lost = 0 := (congrArg Place.lost h.place).symm.trans hlost
  rw [h.place] at hitem
  exact ⟨item', (child_eq_ok_iff h.trail').2 ⟨hother, hname, hitem⟩, hsame⟩

theorem child_file (h : SamePlace files after position other) {component : Component}
    {name : Name} {inode : Inode}
    (hchild : position.child files component = .ok (name, .file inode))
    (hnode : after.node? (name :: position.place.base) = some (.file inode)) :
    other.child after component = .ok (name, .file inode) := by
  obtain ⟨item, hother, hitem⟩ := h.exists_child hchild hnode
  cases item with
  | file _ =>
      cases hitem
      exact hother
  | directory _ => cases hitem

theorem exists_child_directory (h : SamePlace files after position other) {component : Component}
    {name : Name} {inside : Contents}
    (hchild : position.child files component = .ok (name, .directory inside))
    (hnode : after.IsDirectory (name :: position.place.base)) :
    ∃ inside', other.child after component = .ok (name, .directory inside') := by
  obtain ⟨item, hother, hitem⟩ := h.exists_child hchild hnode
  cases item with
  | file _ => cases hitem
  | directory inside' => exact ⟨inside', hother⟩

/-- What is gone from the directory is missing there. -/
theorem child_gone (h : SamePlace files after position other) {component : Component}
    {name : Name} {item : Item} (hchild : position.child files component = .ok (name, item))
    (hgone : after.node? (name :: position.place.base) = none) :
    other.child after component = .error .notFound := by
  obtain ⟨hlost, hname, _⟩ := (child_eq_ok_iff h.trail).1 hchild
  have hother : other.lost = 0 := (congrArg Place.lost h.place).symm.trans hlost
  rw [h.place] at hgone
  rw [Position.child_eq h.trail', Component.nameAt_eq_ok_iff.2 ⟨hother, hname⟩]
  simp only [Option.map_eq_none_iff.1 hgone]

theorem enter (h : SamePlace files after position other) {component : Component} {name : Name}
    {inside inside' : Contents}
    (hchild : position.child files component = .ok (name, .directory inside))
    (hother : other.child after component = .ok (name, .directory inside')) :
    SamePlace files after (position.enter name inside) (other.enter name inside') := by
  refine ⟨h.trail.enter hchild, h.trail'.enter hother, ?_⟩
  have hbase := congrArg Place.base h.place
  simpa [Position.place, Position.enter] using hbase

end SamePlace

/-! ## Places that are gone -/

/-- Everything in one tree that a walk can go on from is in the other, but for some places. -/
def FileSystem.CarriesBut (files after : FileSystem) (gone : Location → Prop) : Prop :=
  ∀ location node, node.IsPassable → ¬gone location → files.node? location = some node →
    after.node? location = some node

/-- The walk goes on from one of the places: from a directory there, or from where the target
of a symbolic link there begins. -/
inductive Passes (files : FileSystem) (followLast : Bool) (gone : Location → Prop) :
    Nat → Position → List Step → Prop where
  | stay {links : Nat} {position : Position} {rest : List Step}
      (h : Passes files followLast gone links position rest) :
      Passes files followLast gone links position (.stay :: rest)
  | up {links : Nat} {position : Position} {rest : List Step}
      (h : Passes files followLast gone links position.above rest) :
      Passes files followLast gone links position (.up :: rest)
  | enterGone {links : Nat} {position : Position} {component : Component} {rest : List Step}
      {name : Name} {inside : Contents}
      (hchild : position.child files component = .ok (name, .directory inside))
      (hgone : gone (name :: position.place.base)) :
      Passes files followLast gone links position (.down component :: rest)
  | enter {links : Nat} {position : Position} {component : Component} {rest : List Step}
      {name : Name} {inside : Contents}
      (hchild : position.child files component = .ok (name, .directory inside))
      (h : Passes files followLast gone links (position.enter name inside) rest) :
      Passes files followLast gone links position (.down component :: rest)
  | replaceGone {links : Nat} {position : Position} {component : Component} {rest : List Step}
      {name : Name} {inode : Inode} {target : Path}
      (hchild : position.child files component = .ok (name, .file inode))
      (hkind : inode.kind = .symlink target) (hmore : ¬(rest = [] ∧ followLast = false))
      (hgone : gone (name :: position.place.base)) :
      Passes files followLast gone links position (.down component :: rest)
  | replace {links : Nat} {position : Position} {component : Component} {rest : List Step}
      {name : Name} {inode : Inode} {target : Path}
      (hchild : position.child files component = .ok (name, .file inode))
      (hkind : inode.kind = .symlink target) (hmore : ¬(rest = [] ∧ followLast = false))
      (h : Passes files followLast gone links (target.origin position) (target.steps ++ rest)) :
      Passes files followLast gone (links + 1) position (.down component :: rest)

variable {followLast : Bool} {links : Nat} {position other : Position} {steps : List Step}
  {gone : Location → Prop}

/-- No walk passes what is not there to be passed. -/
theorem not_passes (hnone : ∀ location node, node.IsPassable →
      files.node? location = some node → ¬gone location)
    (hposition : files.IsTrail position.trail) :
    ¬Passes files followLast gone links position steps := by
  intro h
  induction h with
  | stay _ ih => exact ih hposition
  | up _ ih => exact ih hposition.above
  | enterGone hchild hgone =>
      exact hnone _ .directory trivial (node?_of_child hposition hchild) hgone
  | enter hchild _ ih => exact ih (hposition.enter hchild)
  | @replaceGone _ _ _ _ _ inode target hchild hkind _ hgone =>
      exact hnone _ (.file inode) ⟨target, hkind⟩ (node?_of_child hposition hchild) hgone
  | replace _ _ _ _ ih => exact ih (FileSystem.isTrail_origin hposition _)

/-- A walk that led somewhere, past nothing that is gone, leads there in every tree that has
the rest and the file that it ends at. -/
theorem walk_of_carriesBut (hcarries : files.CarriesBut after gone) {found : Found}
    (hfound : found.IsIn after) (hplace : SamePlace files after position other)
    (hpasses : ¬Passes files followLast gone links position steps)
    (h : walk files followLast links position steps = .ok found) :
    walk after followLast links other steps = .ok found := by
  induction links, position, steps using walk_induction files generalizing other with
  | nil links position =>
      rw [walk_nil] at h ⊢
      rw [← hplace.place]
      exact h
  | stay links position rest ih =>
      rw [walk_stay] at h ⊢
      exact ih hplace (fun hrest => hpasses (.stay hrest)) h
  | up links position rest ih =>
      rw [walk_up] at h ⊢
      exact ih hplace.above (fun hrest => hpasses (.up hrest)) h
  | down links position component rest ihEnter ihJump =>
      rw [walk_down] at h ⊢
      split at h
      · contradiction
      next name inside hchild =>
        have hthere : ¬gone (name :: position.place.base) :=
          fun hgone => hpasses (.enterGone hchild hgone)
        have hdirectory : files.IsDirectory (name :: position.place.base) :=
          isDirectory_place (hplace.trail.enter hchild)
        obtain ⟨inside', hother⟩ := hplace.exists_child_directory hchild
          (hcarries _ .directory trivial hthere hdirectory)
        rw [hother]
        exact ihEnter name inside hchild (hplace.enter hchild hother)
          (fun hrest => hpasses (.enter hchild hrest)) h
      next name inode hchild =>
        have hnode : files.node? (name :: position.place.base) = some (.file inode) :=
          node?_of_child hplace.trail hchild
        split at h
        next target hkind =>
          split at h
          next hend =>
            cases h
            rw [hplace.child_file hchild hfound, hplace.place]
            simp only [hkind]
            exact if_pos hend
          next hmore =>
            have hthere : ¬gone (name :: position.place.base) :=
              fun hgone => hpasses (.replaceGone hchild hkind hmore hgone)
            have hlink := hcarries _ (.file inode) ⟨target, hkind⟩ hthere hnode
            rw [hplace.child_file hchild hlink]
            simp only [hkind]
            rw [if_neg hmore]
            cases links with
            | zero => contradiction
            | succ links =>
                exact ihJump links target rfl (hplace.origin target)
                  (fun hrest => hpasses (.replace hchild hkind hmore hrest)) h
        next hkind =>
          split at h
          next hend =>
            cases h
            rw [hplace.child_file hchild hfound, hplace.place]
            dsimp only
            split
            next target hlink => exact absurd hlink (hkind target)
            next => rw [if_pos hend]
          next => contradiction

/-- A walk past something that is gone finds it missing. -/
theorem walk_of_passes (hcarries : files.CarriesBut after gone)
    (hgone : ∀ location, gone location → after.node? location = none)
    (hplace : SamePlace files after position other)
    (h : Passes files followLast gone links position steps) :
    walk after followLast links other steps = .error .notFound := by
  induction h generalizing other with
  | stay _ ih =>
      rw [walk_stay]
      exact ih hplace
  | up _ ih =>
      rw [walk_up]
      exact ih hplace.above
  | enterGone hchild hmissing => rw [walk_down, hplace.child_gone hchild (hgone _ hmissing)]
  | @enter links position component rest name inside hchild _ ih =>
      by_cases hmissing : gone (name :: position.place.base)
      · rw [walk_down, hplace.child_gone hchild (hgone _ hmissing)]
      · have hdirectory : files.IsDirectory (name :: position.place.base) :=
          isDirectory_place (hplace.trail.enter hchild)
        obtain ⟨inside', hother⟩ := hplace.exists_child_directory hchild
          (hcarries _ .directory trivial hmissing hdirectory)
        rw [walk_down, hother]
        exact ih (hplace.enter hchild hother)
  | replaceGone hchild _ _ hmissing =>
      rw [walk_down, hplace.child_gone hchild (hgone _ hmissing)]
  | @replace links position component rest name inode target hchild hkind hmore _ ih =>
      by_cases hmissing : gone (name :: position.place.base)
      · rw [walk_down, hplace.child_gone hchild (hgone _ hmissing)]
      · have hnode := node?_of_child hplace.trail hchild
        have hlink := hcarries _ (.file inode) ⟨target, hkind⟩ hmissing hnode
        rw [walk_down, hplace.child_file hchild hlink]
        simp only [hkind]
        rw [if_neg hmore]
        exact ih (hplace.origin target)

/-- A walk that led somewhere leads there in every tree that has what it goes through, and
the file that it ends at. -/
theorem walk_of_carries (hcarries : files.Carries after) {found : Found}
    (hfound : found.IsIn after) (hplace : SamePlace files after position other)
    (h : walk files followLast links position steps = .ok found) :
    walk after followLast links other steps = .ok found := by
  have hall : files.CarriesBut after fun _ => False :=
    fun location node hpassable _ => hcarries location node hpassable
  exact walk_of_carriesBut hall hfound hplace
    (not_passes (fun _ _ _ _ => not_false) hplace.trail) h

namespace Context

variable {context changed : Context}

/-- Walks begin in the working directory of either tree. -/
theorem samePlace_here (hcwd : changed.cwd = context.cwd) :
    SamePlace context.files changed.files context.here changed.here := by
  refine ⟨context.isTrail_here, changed.isTrail_here, ?_⟩
  calc
    context.here.place = context.cwd :=
      (FileSystem.position_of_isDirectory context.housed).2
    _ = changed.cwd := hcwd.symm
    _ = changed.here.place := (FileSystem.position_of_isDirectory changed.housed).2.symm

/-- Steps that led somewhere lead there in every tree that has what they go through. -/
theorem walkFrom_of_carries (hcwd : changed.cwd = context.cwd)
    (hcarries : context.files.Carries changed.files) {followLast : Bool} {path : Path}
    {steps : List Step} {found : Found} (hfound : found.IsIn changed.files)
    (h : context.walkFrom followLast path steps = .ok found) :
    changed.walkFrom followLast path steps = .ok found := by
  obtain ⟨hpath, hwalk⟩ := walkFrom_eq_ok_iff.1 h
  have hhere := (samePlace_here hcwd).origin path
  exact walkFrom_eq_ok_iff.2 ⟨hpath, walk_of_carries hcarries hfound hhere hwalk⟩

/-- What a path is looked up through includes one of the places. -/
def LooksThrough (context : Context) (path : Path) (gone : Location → Prop) : Prop :=
  Passes context.files false gone linkLimit (path.origin context.here) path.steps

/-- A path that is not looked up through what is gone names what it named. -/
theorem lookupEntry_of_carriesBut (hcwd : changed.cwd = context.cwd)
    {gone : Location → Prop} (hcarries : context.files.CarriesBut changed.files gone)
    {path : Path} {found : Found} (hfound : found.IsIn changed.files)
    (hpasses : ¬context.LooksThrough path gone) (h : context.lookupEntry path = .ok found) :
    changed.lookupEntry path = .ok found := by
  obtain ⟨hpath, hwalk⟩ := walkFrom_eq_ok_iff.1 h
  have hhere := (samePlace_here hcwd).origin path
  exact walkFrom_eq_ok_iff.2
    ⟨hpath, walk_of_carriesBut hcarries hfound hhere hpasses hwalk⟩

/-- A path that is looked up through what is gone names nothing. -/
theorem lookupEntry_of_looksThrough (hcwd : changed.cwd = context.cwd)
    {gone : Location → Prop} (hcarries : context.files.CarriesBut changed.files gone)
    (hgone : ∀ location, gone location → changed.files.node? location = none)
    {path : Path} {found : Found} (hpasses : context.LooksThrough path gone)
    (h : context.lookupEntry path = .ok found) : changed.lookupEntry path = .error .notFound := by
  obtain ⟨⟨hzero, hne, hshort⟩, _⟩ := walkFrom_eq_ok_iff.1 h
  have hhere := (samePlace_here hcwd).origin path
  rw [lookupEntry, walkFrom, if_neg hzero, if_neg hne, if_neg hshort]
  exact walk_of_passes hcarries hgone hhere hpasses

/-- Paths lead to the same directories before and after a change that leaves alone all
directories and symbolic links. -/
theorem lookup_directory_iff (hcwd : changed.cwd = context.cwd)
    (hthere : context.files.Carries changed.files) (hback : changed.files.Carries context.files)
    {path : Path} {place : Place} :
    changed.lookup path = .ok (.directory place) ↔
      context.lookup path = .ok (.directory place) := by
  constructor
  · exact walkFrom_of_carries hcwd.symm hback trivial
  · exact walkFrom_of_carries hcwd hthere trivial

/-! ## Contexts with more in them -/

/-- Everything in one tree is in the other, and the working directory is the same. -/
structure Within (less more : Context) : Prop where
  cwd : more.cwd = less.cwd
  node? : ∀ location node, less.files.node? location = some node →
    more.files.node? location = some node

namespace Within

variable {less middle more : Context}

theorem refl (context : Context) : context.Within context :=
  ⟨rfl, fun _ _ hnode => hnode⟩

theorem trans (h : less.Within middle) (hmore : middle.Within more) : less.Within more := by
  refine ⟨hmore.cwd.trans h.cwd, ?_⟩
  intro location node hnode
  exact hmore.node? location node (h.node? location node hnode)

theorem carries (h : less.Within more) : less.files.Carries more.files :=
  fun location node _ hnode => h.node? location node hnode

/-- What steps lead to, they lead to with more in the tree. -/
theorem walkFrom (h : less.Within more) {followLast : Bool} {path : Path} {steps : List Step}
    {found : Found} (hwalk : less.walkFrom followLast path steps = .ok found) :
    more.walkFrom followLast path steps = .ok found := by
  apply walkFrom_of_carries h.cwd h.carries _ hwalk
  cases found with
  | directory place => trivial
  | file above name inode =>
      obtain ⟨_, hfile⟩ := walkFrom_eq_ok_iff.1 hwalk
      obtain ⟨hnode, _⟩ :=
        walk_eq_file (FileSystem.isTrail_origin less.isTrail_here path) hfile
      exact h.node? (name :: above) (.file inode) hnode

end Within

/-- A node that is added is under a name that was free. -/
theorem within_of_addNode {directory : Location} {name : Name} {node : Node}
    (h : context.addNode directory name node = .ok changed) : context.Within changed := by
  obtain ⟨hcwd, hfree, hnode⟩ := addNode_eq_ok h
  refine ⟨hcwd, ?_⟩
  intro location other hother
  rw [hnode, if_neg, hother]
  rintro rfl
  rw [hfree] at hother
  contradiction

/-- Contexts with the same nodes and the same working directory are equal. -/
theorem ext_node? (hcwd : context.cwd = changed.cwd)
    (h : ∀ location, context.files.node? location = changed.files.node? location) :
    context = changed := by
  obtain ⟨files, cwd, _⟩ := context
  obtain ⟨files', cwd', _⟩ := changed
  obtain rfl : files = files' := FileSystem.ext_node? h
  obtain rfl : cwd = cwd' := hcwd
  rfl

end Context

end LinkTags
