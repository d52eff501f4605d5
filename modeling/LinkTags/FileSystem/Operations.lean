import LinkTags.FileSystem.Lookup

/-!
# Operations on paths

The operations that tagging needs: who a file is, what a directory holds, and the
three changes, each of a single entry: a new link, a link removed, and a new empty
directory. A refused operation changes nothing, since it gives no context back.

A directory is listed in any order and then sorted, so the order that it is listed in does not
show (`Context.readDirectory_eq_of_perm`), and what is read is what the tree has there
(`Context.readDirectory_eq`).
-/

namespace LinkTags

/-- Who a file is, whatever path leads to it. -/
inductive FileId where
  | directory (place : Place)
  | file (inode : Inode)
  deriving DecidableEq

/-- The identity of what a lookup found. -/
def Found.id : Found → FileId
  | .directory place => .directory place
  | .file _ _ inode => .file inode

namespace Context

/-- The identity of what a path names, symbolic links not being followed. -/
def identity (context : Context) (path : Path) : Except FileError FileId :=
  match context.lookupEntry path with
  | .ok found => .ok found.id
  | .error e => .error e

/-- Both paths name links to the same file. -/
def sameFile (context : Context) (a b : Path) : Except FileError Bool :=
  match context.identity a with
  | .error e => .error e
  | .ok first =>
      match context.identity b with
      | .error e => .error e
      | .ok second => .ok (first = second)

/-- The directory of the tree that a path leads to, if it has a location there. -/
def directoryAt (context : Context) (path : Path) : Except FileError Place :=
  match context.lookup path with
  | .error e => .error e
  | .ok (.file ..) => .error .notADirectory
  | .ok (.directory place) => .ok place

/-- What a directory as reached holds: a removed one is empty. -/
def contentsAt (context : Context) (place : Place) : Contents :=
  if place.lost = 0 then context.files.contentsIn place.base else .nil

theorem sorted_contentsAt (context : Context) (place : Place) :
    (context.contentsAt place).Sorted := by
  unfold contentsAt FileSystem.contentsIn
  split
  · split
    next inside hinside => exact FileSystem.sorted_of_inside? hinside
    next => trivial
  · trivial

/-- What the directory holds that a path leads to. -/
def contentsOf (context : Context) (path : Path) : Except FileError Contents :=
  match context.directoryAt path with
  | .error e => .error e
  | .ok place => .ok (context.contentsAt place)

/-- The entries of the directory that a path leads to. They are listed in no particular
order, and put in the order of their names. -/
def readDirectory (context : Context) (path : Path) : Except FileError (List Entry) :=
  match context.contentsOf path with
  | .error e => .error e
  | .ok contents => .ok (Entry.inOrder contents.entries)

theorem sorted_of_contentsOf {context : Context} {path : Path} {contents : Contents}
    (h : context.contentsOf path = .ok contents) : contents.Sorted := by
  unfold contentsOf at h
  split at h
  · contradiction
  · cases h
    exact context.sorted_contentsAt _

/-- To read a directory is to go through what the tree has there. -/
theorem readDirectory_eq (context : Context) (path : Path) :
    context.readDirectory path = (context.contentsOf path).map Contents.entries := by
  rw [readDirectory]
  cases h : context.contentsOf path with
  | error e => rfl
  | ok contents =>
      have hsorted := sorted_of_contentsOf h
      exact congrArg Except.ok (Contents.inOrder_of_perm hsorted (List.Perm.refl _))

/-- In whatever order a directory is listed, this does not show where it is read. -/
theorem readDirectory_eq_of_perm {context : Context} {path : Path} {contents : Contents}
    (h : context.contentsOf path = .ok contents) {listed : List Entry}
    (hlisted : listed.Perm contents.entries) :
    context.readDirectory path = .ok (Entry.inOrder listed) := by
  rw [readDirectory_eq, h, Contents.inOrder_of_perm (sorted_of_contentsOf h) hlisted]
  rfl

/-- Add a node under a name. -/
def addNode (context : Context) (directory : Location) (name : Name) (node : Node) :
    Except FileError Context :=
  match h : context.files.add directory name node with
  | .error e => .error e
  | .ok files => .ok ⟨files, context.cwd, FileSystem.isDirectory_of_add h context.housed⟩

/-- Remove a link. -/
def eraseLink (context : Context) (location : Location) : Context :=
  ⟨context.files.erase location, context.cwd,
    FileSystem.isDirectory_erase.2 context.housed⟩

/-- The directory above the last component of a path, and the name that the
component is there. -/
def spot (context : Context) (path : Path) : Except FileError (Location × Name) :=
  match context.lookupParent path with
  | .error e => .error e
  | .ok (place, component) =>
      match component.nameAt place.lost with
      | .error e => .error e
      | .ok name => .ok (place.base, name)

/-- The spot that a path would take if it were created, where nothing may be yet. -/
def vacancy (context : Context) (path : Path) : Except FileError (Location × Name) :=
  match context.spot path with
  | .error e => .error e
  | .ok (directory, name) =>
      if context.files.node? (name :: directory) = none then .ok (directory, name)
      else .error .alreadyExists

/-- Add a node where a path says, which must be free. -/
def create (context : Context) (path : Path) (node : Node) : Except FileError Context :=
  match context.vacancy path with
  | .error e => .error e
  | .ok (directory, name) => context.addNode directory name node

/-- Make an empty directory. -/
def makeDirectory (context : Context) (path : Path) : Except FileError Context :=
  context.create path .directory

/-- Give what `old` names a second link `new`. That `old` is a directory, which
cannot be linked, is noticed only after `new` was found to be free. -/
def link (context : Context) (old new : Path) : Except FileError Context :=
  match context.lookupEntry old with
  | .error e => .error e
  | .ok found =>
      match context.vacancy new with
      | .error e => .error e
      | .ok (directory, name) =>
          match found with
          | .directory _ => .error .notPermitted
          | .file _ _ inode => context.addNode directory name (.file inode)

/-- Remove the link that a path names. -/
def unlink (context : Context) (path : Path) : Except FileError Context :=
  match context.lookupEntry path with
  | .error e => .error e
  | .ok (.directory _) => .error .isADirectory
  | .ok (.file directory name _) => .ok (context.eraseLink (name :: directory))

end Context

end LinkTags
