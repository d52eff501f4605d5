import LinkTags.FileSystem.Operations

/-!
# Editing a tree

The changes by which a tree comes to be and is rearranged around the library:
directories with those above them, files, links of either sort, moving, removing,
and going to another working directory. The working directory moves with the
directory it is in, and outlives it.
-/

namespace LinkTags

/-- A change of a tree, or of the directory it is seen from. -/
inductive Edit where
  | directory (path : Path)
  | file (path : Path)
  | fifo (path : Path)
  | link (old new : Path)
  | symlink (target new : Path)
  | move (old new : Path)
  | remove (path : Path)
  | enter (path : Path)
  deriving DecidableEq

/-- The path without the slashes at its end. -/
def Path.withoutTrailingSlashes (path : Path) : Path :=
  ⟨(path.bytes.reverse.dropWhile (· = slash)).reverse⟩

namespace Place

/-- Where a directory is once everything at and below a location is gone. -/
def without (place : Place) (name : Name) (above : Location) : Place :=
  if name :: above <:+ place.base then
    ⟨above, place.lost + (place.base.length - above.length)⟩
  else place

/-- Where a directory is once everything at and below `old` has moved to `new`. -/
def moved (place : Place) (old new : Location) : Place :=
  if old <:+ place.base then
    ⟨place.base.take (place.base.length - old.length) ++ new, place.lost⟩
  else place

end Place

namespace Context

/-- Go down the steps from a place, making the directories that are missing. -/
def makeSteps (context : Context) (place : Place) : List Step → Except FileError Context
  | [] => .ok context
  | .stay :: rest => makeSteps context place rest
  | .up :: rest => makeSteps context place.above rest
  | .down component :: rest =>
      let position := context.files.position place
      match walk context.files true linkLimit position [.down component] with
      | .ok (.directory next) => makeSteps context next rest
      | .ok (.file ..) => .error .notADirectory
      | .error .notFound =>
          match component.nameAt place.lost with
          | .error e => .error e
          | .ok name =>
              match context.addNode place.base name .directory with
              | .error e => .error e
              | .ok after => makeSteps after (.live (name :: place.base)) rest
      | .error e => .error e

/-- Make the directories along the steps, unless they lead to a directory already. -/
def ensureSteps (context : Context) (position : Position) (steps : List Step) :
    Except FileError Context :=
  match walk context.files true linkLimit position steps with
  | .ok (.directory _) => .ok context
  | _ => context.makeSteps position.place steps

/-- Make the directory that a path names, and those above it, where missing. -/
def ensureDirectory (context : Context) (path : Path) : Except FileError Context :=
  context.ensureSteps (path.origin context.here) path.steps

/-- Make the directories above the last component of a path, where missing. -/
def ensureParent (context : Context) (path : Path) : Except FileError Context :=
  context.ensureSteps (path.origin context.here) path.steps.dropLast

/-- Make a new file of some kind, with the directories above it. -/
def makeFile (context : Context) (path : Path) (kind : Kind) : Except FileError Context :=
  match context.ensureParent path with
  | .error e => .error e
  | .ok ready => ready.create path (.file ⟨ready.files.freshNumber, kind⟩)

/-- Make a new regular file, unless something has its path. The directories above are
made in any case. -/
def ensureFile (context : Context) (path : Path) : Except FileError Context :=
  match context.ensureParent path with
  | .error e => .error e
  | .ok ready =>
      match ready.lookupEntry path with
      | .ok _ => .ok ready
      | .error _ => ready.create path (.file ⟨ready.files.freshNumber, .regular⟩)

/-- Link a file under a new path, with the directories above it. -/
def linkInto (context : Context) (old new : Path) : Except FileError Context :=
  match context.ensureParent new with
  | .error e => .error e
  | .ok ready => ready.link old new

/-- Remove the directory at a location with everything below it. -/
def removeTree (context : Context) (name : Name) (above : Location) :
    Except FileError Context :=
  enter (context.files.eraseTree name above) (context.cwd.without name above)

/-- Remove what a path names, a directory with everything below it. -/
def remove (context : Context) (path : Path) : Except FileError Context :=
  match context.lookupEntry path with
  | .error e => .error e
  | .ok (.file directory name _) => .ok (context.eraseLink (name :: directory))
  | .ok (.directory ⟨[], _⟩) => .error .invalidArgument
  | .ok (.directory ⟨name :: above, lost⟩) =>
      if lost = 0 then context.removeTree name above else .error .notFound

/-- Move the directory `name` in `above`, with everything below it, to a free name. -/
def moveTree (context : Context) (name : Name) (above directory : Location) (new : Name) :
    Except FileError Context :=
  match hinside : context.files.inside? (name :: above) with
  | none => .error .notFound
  | some inside =>
      match (context.files.eraseTree name above).put directory new (.directory inside)
          (FileSystem.sorted_of_inside? hinside) with
      | .error e => .error e
      | .ok files => enter files (context.cwd.moved (name :: above) (new :: directory))

/-- Move a file to a name in a directory, over another file that is there or not. A
link moved onto another link to the same file leaves both. -/
def moveFile (context : Context) (old directory : Location) (name : Name) (inode : Inode) :
    Except FileError Context :=
  let new := name :: directory
  match context.files.node? new with
  | some .directory => .error .isADirectory
  | some (.file other) =>
      if inode = other then .ok context
      else ((context.eraseLink new).eraseLink old).addNode directory name (.file inode)
  | none => (context.eraseLink old).addNode directory name (.file inode)

/-- Move a directory to a name in a directory, over an empty one that is there or not. -/
def moveDirectory (context : Context) (old directory : Location) (name : Name) :
    Except FileError Context :=
  let new := name :: directory
  match old with
  | [] => .error .invalidArgument
  | own :: above =>
      if own :: above = new then .ok context
      else if own :: above <:+ new then .error .invalidArgument
      else
        match context.files.node? new with
        | some (.file _) => .error .notADirectory
        | some .directory =>
            if context.files.contentsIn new ≠ .nil then .error .notEmpty
            else
              match context.removeTree name directory with
              | .error e => .error e
              | .ok cleared => cleared.moveTree own above directory name
        | none => context.moveTree own above directory name

/-- Move what `old` names to `new`. Slashes may follow the new name of a directory. -/
def rename (context : Context) (old new : Path) : Except FileError Context :=
  match context.lookupEntry old with
  | .error e => .error e
  | .ok (.file above own inode) =>
      match context.spot new with
      | .error e => .error e
      | .ok (directory, name) => context.moveFile (own :: above) directory name inode
  | .ok (.directory ⟨location, lost⟩) =>
      match context.spot new.withoutTrailingSlashes with
      | .error e => .error e
      | .ok (directory, name) =>
          if lost = 0 then context.moveDirectory location directory name
          else .error .invalidArgument

/-- Go to the directory that a path leads to. -/
def changeDirectory (context : Context) (path : Path) : Except FileError Context :=
  match context.directoryAt path with
  | .error e => .error e
  | .ok place => enter context.files place

/-- Make one change. -/
def edit (context : Context) : Edit → Except FileError Context
  | .directory path => context.ensureDirectory path
  | .file path => context.ensureFile path
  | .fifo path => context.makeFile path .fifo
  | .link old new => context.linkInto old new
  | .symlink target new => context.makeFile new (.symlink target)
  | .move old new => context.rename old new
  | .remove path => context.remove path
  | .enter path => context.changeDirectory path

/-- Make changes one after the other, up to the first that is refused. -/
def editAll (context : Context) : List Edit → Except FileError Context
  | [] => .ok context
  | first :: rest =>
      match context.edit first with
      | .error e => .error e
      | .ok next => next.editAll rest

end Context

end LinkTags
