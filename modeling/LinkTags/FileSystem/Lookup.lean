import LinkTags.FileSystem.Basic
import LinkTags.Path.Route

/-!
# Looking paths up

A path is walked from the root or from the working directory, one step at a time,
through directories that are really there. A symbolic link before the end is
replaced by its target; one at the end is replaced only if the lookup follows it.
At most forty links are replaced in one lookup, which bounds the walk. What is walked
has to be given by a path of at most 4095 bytes, however long the way to the working
directory and the targets of links may be.

## Implementation notes

The working directory may have been removed while it was in use. `Place` keeps how
far below the tree it is: the directory itself still answers to `.`, and going up
from it leads back towards the tree, but there is nothing in it. A walk carries the
directories it has come down through, so that no step looks from the root again.
-/

namespace LinkTags

/-- A directory as reached: the one at `base`, or one that was `lost` levels below
it before it was removed. -/
structure Place where
  base : Location
  lost : Nat
  deriving DecidableEq

namespace Place

/-- The root of the tree. -/
def root : Place := ⟨[], 0⟩

/-- The directory at a location of the tree. -/
def live (location : Location) : Place := ⟨location, 0⟩

/-- The directory above, which for the root is the root. -/
def above (place : Place) : Place :=
  match place.lost with
  | 0 => ⟨place.base.tail, 0⟩
  | lost + 1 => ⟨place.base, lost⟩

end Place

/-- The name that a component would have in a directory that was lost so many levels
below the tree: only one in the tree can hold a name. -/
def Component.nameAt (component : Component) (lost : Nat) : Except FileError Name :=
  if lost ≠ 0 then .error .notFound
  else
    match Name.ofComponent? component with
    | some name => .ok name
    | none => .error .nameTooLong

/-- A directory as walked to: the names on the way down to `base`, the innermost first,
each with what the directory there holds. -/
structure Position where
  trail : List (Name × Contents)
  lost : Nat

namespace Position

/-- The root of the tree. -/
def root : Position := ⟨[], 0⟩

/-- The directory walked to. -/
def place (position : Position) : Place :=
  ⟨position.trail.map Prod.fst, position.lost⟩

/-- What the directory at the end of the trail holds. -/
def contents (files : FileSystem) (position : Position) : Contents :=
  match position.trail with
  | [] => files.root
  | (_, inside) :: _ => inside

/-- The directory above, which for the root is the root. -/
def above (position : Position) : Position :=
  match position.lost with
  | 0 => ⟨position.trail.tail, 0⟩
  | lost + 1 => ⟨position.trail, lost⟩

/-- A directory in this one. -/
def enter (position : Position) (name : Name) (inside : Contents) : Position :=
  ⟨(name, inside) :: position.trail, 0⟩

/-- What this directory has under a component. -/
def child (files : FileSystem) (position : Position) (component : Component) :
    Except FileError (Name × Item) :=
  match component.nameAt position.lost with
  | .error e => .error e
  | .ok name =>
      match (position.contents files).find? name with
      | some item => .ok (name, item)
      | none => .error .notFound

end Position

/-- The names that lead down from a directory, each with what it holds, after those
that have been passed. -/
def Contents.trail (passed : List (Name × Contents)) :
    Contents → List Name → List (Name × Contents)
  | _, [] => passed
  | contents, name :: rest =>
      match contents.find? name with
      | some (.directory inside) => inside.trail ((name, inside) :: passed) rest
      | _ => passed

/-- How a directory of the tree is walked to. -/
def FileSystem.position (files : FileSystem) (place : Place) : Position :=
  ⟨files.root.trail [] place.base.reverse, place.lost⟩

/-- The directories on a trail are where it says, and hold what it says. -/
def FileSystem.IsTrail (files : FileSystem) : List (Name × Contents) → Prop
  | [] => True
  | (name, inside) :: rest =>
      files.inside? (name :: rest.map Prod.fst) = some inside ∧ files.IsTrail rest

theorem FileSystem.inside?_base {files : FileSystem} {position : Position}
    (h : files.IsTrail position.trail) :
    files.inside? position.place.base = some (position.contents files) := by
  obtain ⟨trail, lost⟩ := position
  cases trail with
  | nil => rfl
  | cons first rest => exact h.1

/-- The trail to a directory of the tree, from one on the way to it. -/
theorem FileSystem.isTrail_trail {files : FileSystem} {passed : List (Name × Contents)}
    {contents inside : Contents} {names : List Name} (hpassed : files.IsTrail passed)
    (hcontents : files.inside? (passed.map Prod.fst) = some contents)
    (hreach : contents.reach? names = some (.directory inside)) :
    files.IsTrail (contents.trail passed names) ∧
      (contents.trail passed names).map Prod.fst = names.reverse ++ passed.map Prod.fst := by
  induction names generalizing passed contents with
  | nil => exact ⟨hpassed, rfl⟩
  | cons name rest ih =>
      rw [Contents.reach?] at hreach
      rw [Contents.trail]
      split at hreach
      next deeper hfind =>
        have hinside : files.inside? (name :: passed.map Prod.fst) = some deeper := by
          rw [inside?, item?_cons, hcontents]
          simp [hfind]
        have hnext : files.IsTrail ((name, deeper) :: passed) := ⟨hinside, hpassed⟩
        obtain ⟨htrail, hnames⟩ := ih hnext hinside hreach
        exact ⟨by simpa [hfind] using htrail, by simpa [hfind] using hnames⟩
      · split at hreach <;> cases hreach
      · contradiction

/-- The way to a directory of the tree ends in that directory. -/
theorem FileSystem.position_of_isDirectory {files : FileSystem} {place : Place}
    (h : files.IsDirectory place.base) :
    files.IsTrail (files.position place).trail ∧ (files.position place).place = place := by
  obtain ⟨inside, hinside⟩ := isDirectory_iff_exists_inside?.1 h
  have hnil : files.IsTrail [] := trivial
  obtain ⟨htrail, hnames⟩ := isTrail_trail hnil rfl (inside?_eq_some_iff.1 hinside)
  refine ⟨htrail, ?_⟩
  simp only [List.reverse_reverse, List.map_nil, List.append_nil] at hnames
  simp [Position.place, position, hnames]

/-- What a directory has under a component, by what is one name below its place. -/
theorem Position.child_eq {files : FileSystem} {position : Position}
    (h : files.IsTrail position.trail) (component : Component) :
    position.child files component =
      match component.nameAt position.lost with
      | .error e => .error e
      | .ok name =>
          match files.item? (name :: position.place.base) with
          | some item => .ok (name, item)
          | none => .error .notFound := by
  unfold child
  split
  · simp_all
  next name _ => simp [FileSystem.item?_cons, FileSystem.inside?_base h]

/-- What a path leads to. -/
inductive Found where
  | directory (place : Place)
  | file (directory : Location) (name : Name) (inode : Inode)
  deriving DecidableEq

/-- How many symbolic links one lookup replaces at most. -/
def linkLimit : Nat := 40

/-- How many bytes a path that is looked up has at most. -/
def pathLimit : Nat := 4095

/-- The path has more bytes than can be looked up. -/
def Path.isTooLong (path : Path) : Bool :=
  pathLimit < path.bytes.length

/-- Where the walk of a path begins. -/
def Path.origin (path : Path) (cwd : Position) : Position :=
  if path.isAbsolute then .root else cwd

/-- Walk the steps from a directory, passing over to `jump` at a symbolic link that has
to be replaced. A link at the very end is replaced only if `followLast`. -/
def walkWith (jump : Position → List Step → Except FileError Found) (files : FileSystem)
    (followLast : Bool) : Position → List Step → Except FileError Found
  | position, [] => .ok (.directory position.place)
  | position, .stay :: rest => walkWith jump files followLast position rest
  | position, .up :: rest => walkWith jump files followLast position.above rest
  | position, .down component :: rest =>
      match position.child files component with
      | .error e => .error e
      | .ok (name, .directory inside) =>
          walkWith jump files followLast (position.enter name inside) rest
      | .ok (name, .file inode) =>
          match inode.kind with
          | .symlink target =>
              if rest = [] ∧ followLast = false then .ok (.file position.place.base name inode)
              else jump (target.origin position) (target.steps ++ rest)
          | _ =>
              if rest = [] then .ok (.file position.place.base name inode)
              else .error .notADirectory

/-- Walk the steps from a directory, replacing at most `links` symbolic links. -/
def walk (files : FileSystem) (followLast : Bool) :
    Nat → Position → List Step → Except FileError Found
  | 0 => walkWith (fun _ _ => .error .tooManyLinks) files followLast
  | links + 1 => walkWith (walk files followLast links) files followLast

/-- A file system seen from a working directory in it. -/
structure Context where
  files : FileSystem
  cwd : Place
  housed : files.IsDirectory cwd.base
  deriving DecidableEq

namespace Context

/-- An empty file system seen from its root. -/
def empty : Context := ⟨.empty, .root, rfl⟩

instance : Inhabited Context := ⟨empty⟩

/-- A file system seen from a directory of it. -/
def enter (files : FileSystem) (place : Place) : Except FileError Context :=
  if h : files.IsDirectory place.base then .ok ⟨files, place, h⟩ else .error .notFound

/-- How the working directory is walked to. -/
def here (context : Context) : Position :=
  context.files.position context.cwd

/-- Walk steps from where a path begins. A zero byte, the empty path and one that is
too long are refused before the walk. -/
def walkFrom (context : Context) (followLast : Bool) (path : Path) (steps : List Step) :
    Except FileError Found :=
  if (0 : UInt8) ∈ path.bytes then .error .nulByte
  else if path.bytes = [] then .error .notFound
  else if path.isTooLong then .error .nameTooLong
  else walk context.files followLast linkLimit (path.origin context.here) steps

/-- What a path leads to, following a symbolic link at its end. -/
def lookup (context : Context) (path : Path) : Except FileError Found :=
  context.walkFrom true path path.steps

/-- What a path names, a symbolic link at its end standing for itself. -/
def lookupEntry (context : Context) (path : Path) : Except FileError Found :=
  context.walkFrom false path path.steps

/-- The directory that holds the last component of a path, and that component. A
path that does not end in a component names a directory that is there already. -/
def lookupParent (context : Context) (path : Path) : Except FileError (Place × Component) :=
  match context.walkFrom true path path.steps.dropLast with
  | .error e => .error e
  | .ok (.file ..) => .error .notADirectory
  | .ok (.directory place) =>
      match path.steps.getLast? with
      | some (.down component) => .ok (place, component)
      | _ => .error .alreadyExists

/-- The path leads to a directory. -/
def isDirectory (context : Context) (path : Path) : Bool :=
  match context.lookup path with
  | .ok (.directory _) => true
  | _ => false

/-- The path leads to a regular file. -/
def isRegular (context : Context) (path : Path) : Bool :=
  match context.lookup path with
  | .ok (.file _ _ inode) => inode.kind = .regular
  | _ => false

/-- The path leads to something. -/
def leads (context : Context) (path : Path) : Bool :=
  match context.lookup path with
  | .ok _ => true
  | .error _ => false

/-- The route of a path taken from the working directory, whose own location is
known only while it is part of the tree. -/
def absolute (context : Context) (path : Path) : Except FileError Route :=
  if path.isAbsolute then .ok (Route.root.followAll path.steps)
  else if context.cwd.lost = 0 then
    .ok ((Route.fromRoot (context.cwd.base.map Name.toComponent)).followAll path.steps)
  else .error .notFound

end Context

end LinkTags
