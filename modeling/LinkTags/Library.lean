import LinkTags.Listing
import LinkTags.Tagging

/-!
# Libraries

A directory with a marker directory in it is the root of a library. The library
that a path belongs to is the nearest one outward along the route of the path. A
library is known by the path of its root, from which the tags in it are taken.
-/

namespace LinkTags

/-- Why a directory was not made the root of a library. -/
inductive InitError where
  | alreadyLibrary (directory : Path)
  | fileExists (directory : Path)
  | filesystem (metadata : Path) (cause : FileError)
  deriving DecidableEq

namespace InitError

/-- The words for an error. -/
def message : InitError → String
  | alreadyLibrary directory =>
      s!"`{directory.display}` already has a `{marker.display}` directory. " ++
        "It is already the root of a library."
  | fileExists directory =>
      s!"`{directory.display}` has a file named `{marker.display}`. " ++
        "Please move it before initializing."
  | filesystem metadata cause =>
      s!"Failed to create `{metadata.display}`: {cause.message}"

/-- The error of the file system behind a failed initialization. -/
def cause? : InitError → Option FileError
  | filesystem _ cause => some cause
  | _ => none

end InitError

/-- The path of a resource kept in the marker directory of a library. -/
def resourcePath (directory relative : Path) : Path :=
  (directory.join marker).join relative

namespace Context

/-- The directory is the root of a library. -/
def isLibrary (context : Context) (directory : Path) : Bool :=
  context.isDirectory (directory.join marker)

/-- The root of the nearest library outward from a path, if there is one. -/
def findLibrary (context : Context) (start : Path) : Except FileError (Option Path) :=
  match context.absolute start with
  | .error e => .error e
  | .ok route => .ok ((route.ancestors.map Route.toPath).find? context.isLibrary)

/-- Make a directory the root of a library. -/
def initLibrary (context : Context) (directory : Path) : Except InitError Context :=
  let metadata := directory.join marker
  match context.makeDirectory metadata with
  | .ok after => .ok after
  | .error .alreadyExists =>
      if context.isDirectory metadata then .error (.alreadyLibrary directory)
      else .error (.fileExists directory)
  | .error e => .error (.filesystem metadata e)

end Context

/-- A library, known by the path of its root. -/
structure Library where
  root : Path
  deriving DecidableEq

namespace Library

/-- The path of the marker directory. -/
def metadata (library : Library) : Path :=
  library.root.join marker

/-- The library at a path, if there is one. -/
def open? (context : Context) (path : Path) : Option Library :=
  if context.isLibrary path then some ⟨path⟩ else none

/-- The nearest library outward from a path, if there is one. -/
def find (context : Context) (start : Path) : Except FileError (Option Library) :=
  match context.findLibrary start with
  | .error e => .error e
  | .ok root => .ok (root.bind (open? context))

/-- Make a directory the root of a new library. -/
def init (context : Context) (path : Path) : Except InitError (Library × Context) :=
  match context.initLibrary path with
  | .error e => .error e
  | .ok after => .ok (⟨path⟩, after)

/-- The path of a resource kept in the marker directory. -/
def resource (library : Library) (relative : Path) : Path :=
  library.metadata.join relative

/-- The path that a name stands for in the library. -/
def resolveAsPath (library : Library) (name : String) : Path :=
  LinkTags.resolveAsPath library.root name

/-- The tag that a name stands for in the library. -/
def resolveAsTag (library : Library) (context : Context) (name : String) :
    Except Tag.Error Tag :=
  LinkTags.resolveAsTag context library.root name

/-- Link a file into the directory that a name stands for. -/
def tag (library : Library) (context : Context) (file : Path) (name : String) :
    Except TaggingError (Path × Context) :=
  context.tag file (library.resolveAsPath name)

/-- Unlink a file from the directory that a name stands for. -/
def untag (library : Library) (context : Context) (file : Path) (name : String) :
    Except TaggingError (Path × Context) :=
  context.untag file (library.resolveAsPath name)

/-- One path for each file that matches a query whose names are of the library. -/
def search (library : Library) (context : Context) (query : Query) :
    Except SearchError (List Path) :=
  context.search library.resolveAsPath query

/-- Every link to a file in the library. -/
def links (library : Library) (context : Context) (file : Path) :
    Except FileError (List Path) :=
  context.links library.root file

/-- The tags that a file has in the library. -/
def tagsOf (library : Library) (context : Context) (file : Path) :
    Except Tag.Error (List Tag) :=
  context.tagsOf library.root file

/-- The tags directly in the directory that a name stands for. -/
def tagsIn (library : Library) (context : Context) (name : String) :
    Except Tag.Error (List Tag) :=
  context.tagsIn library.root (library.resolveAsPath name)

end Library

end LinkTags
