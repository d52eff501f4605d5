import LinkTags.Path.Parent
import LinkTags.Search
import LinkTags.Tag

/-!
# Listing links and tags

The library is walked depth first, directories of one level in the order of their
names. Symbolic links are not entered, and neither is the marker directory of a
library. Every directory is read by its path, so a walk fails as a whole if it comes
to one whose path is too long. The links to a file are its entries in the directories
visited, its tags are those of the parents of its links, each parent once, and a directory
shows the tags directly in it.
-/

namespace LinkTags

/-- The name of the directory that marks the root of a library. -/
def marker : Path := Path.ofString ".hardtag"

/-- The subdirectories among the entries of a directory, the marker left out. -/
def subdirectories (entries : List Entry) : List Entry :=
  entries.filter fun entry => entry.node = .directory ∧ entry.name.path ≠ marker

namespace Contents

/-- The directories that a walk visits below the one at a path, each with the path by
which it is reached and with its entries. -/
def visitsBelow (path : Path) : Contents → List (Path × List Entry)
  | .nil => []
  | .file _ _ rest => rest.visitsBelow path
  | .directory name inside rest =>
      if name.path = marker then rest.visitsBelow path
      else
        (path.join name.path, inside.entries) :: inside.visitsBelow (path.join name.path) ++
          rest.visitsBelow path

/-- The directories that a walk visits from the one at a path on. -/
def visits (path : Path) (contents : Contents) : List (Path × List Entry) :=
  (path, contents.entries) :: contents.visitsBelow path

end Contents

namespace Context

/-- The directories that a walk from a path visits, each with its entries. -/
def walkFiles (context : Context) (root : Path) :
    Except FileError (List (Path × List Entry)) :=
  match context.contentsOf root with
  | .error e => .error e
  | .ok contents =>
      let visits := contents.visits root
      if visits.any fun visit => visit.1.isTooLong then .error .nameTooLong else .ok visits

/-- The links to a file among the regular files of a directory. -/
def linksAmong (id : FileId) (visit : Path × List Entry) : List Path :=
  ((regularFiles visit.1 visit.2).filter fun item => item.id = id).map Match.path

/-- Every link to the file that `file` names, below `root`. -/
def links (context : Context) (root file : Path) : Except FileError (List Path) :=
  match context.identity file with
  | .error e => .error e
  | .ok id =>
      match context.walkFiles root with
      | .error e => .error e
      | .ok visits => .ok (visits.flatMap (linksAmong id))

/-- The tags of paths, in their order. -/
def tagsOfPaths (context : Context) (root : Path) : List Path → Except Tag.Error (List Tag)
  | [] => .ok []
  | path :: rest =>
      match Tag.ofPath context root path with
      | .error e => .error e
      | .ok tag =>
          match tagsOfPaths context root rest with
          | .error e => .error e
          | .ok tags => .ok (tag :: tags)

/-- The tags of the directories below `root` that hold a link to what `file` names: each
parent of a link once, in the order of the links. -/
def tagsOf (context : Context) (root file : Path) : Except Tag.Error (List Tag) :=
  match context.links root file with
  | .error e => .error (.filesystem e)
  | .ok links => context.tagsOfPaths root (Path.unique (links.filterMap Path.parent?))

/-- The tags of the directories directly in the one that a path leads to. -/
def tagsIn (context : Context) (root directory : Path) : Except Tag.Error (List Tag) :=
  match context.readDirectory directory with
  | .error e => .error (.filesystem e)
  | .ok entries =>
      context.tagsOfPaths root
        ((subdirectories entries).map fun entry => directory.join entry.name.path)

end Context

end LinkTags
