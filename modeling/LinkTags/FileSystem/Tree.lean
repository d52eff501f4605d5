import LinkTags.FileSystem.Operations
import LinkTags.Path.Text

/-!
# Trees

Everything below a directory, with the paths to it: what a walk of the whole tree in
the order of the names comes to.
-/

namespace LinkTags

/-- The path of a single component. -/
def Component.path (component : Component) : Path := ⟨component.bytes⟩

/-- Everything in and below a directory with the path to it, each directory followed by
what is in it, and the entries of one directory in the order of their names. -/
def Contents.tree (path : Path) : Contents → List (Path × Node)
  | .nil => []
  | .file name inode rest => (path.join name.path, .file inode) :: rest.tree path
  | .directory name inside rest =>
      (path.join name.path, .directory) :: inside.tree (path.join name.path) ++ rest.tree path

/-- Everything below the directory that a path leads to. -/
def Context.tree (context : Context) (path : Path) : Except FileError (List (Path × Node)) :=
  match context.contentsOf path with
  | .error e => .error e
  | .ok contents => .ok (contents.tree path)

end LinkTags
