import LinkTags.Path.Basic

/-!
# Parents of paths

The components of a path are what it starts with, a slash or a `.`, and its steps that
move from there on. Two paths with the same components are spelled differently at most by
slashes and dots that say nothing. The parent of a path is the path without its last component.
-/

namespace LinkTags.Path

/-- The bytes that say where a path starts: the slash of an absolute path, or the `.` that
a relative one can begin with. -/
def start (path : Path) : List UInt8 :=
  if path.isAbsolute then [slash]
  else if (split path.bytes).head? = some [dot] then [dot]
  else []

/-- The bytes of a path after those that say where it starts. -/
def body (path : Path) : List UInt8 :=
  path.bytes.drop path.start.length

/-- What paths are compared by: where they start, and how they move. -/
def components (path : Path) : List UInt8 × List Step :=
  (path.start, path.moves)

/-- Pieces without those at the end that stay. -/
def trim (pieces : List (List UInt8)) : List (List UInt8) :=
  (pieces.reverse.dropWhile fun piece => Step.ofPiece piece = .stay).reverse

/-- The path to what a path names something in: its last component is left out, with the
slashes and dots around it. The root has no parent and neither has the empty path, which
is the parent of `.`. -/
def parent? (path : Path) : Option Path :=
  let pieces := trim (split path.body)
  if pieces = [] then
    if path.start = [dot] then some ⟨[]⟩ else none
  else some ⟨path.start ++ [slash].intercalate (trim pieces.dropLast)⟩

/-- Paths without those that have the components of one before. -/
def unique (paths : List Path) : List Path :=
  paths.eraseDupsBy fun path other => path.components = other.components

end LinkTags.Path
