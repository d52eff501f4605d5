import LinkTags.FileSystem.Tree

/-!
# Tagging files

A file has a tag when the directory of the tag holds a link to it. Tagging adds
that link under the name that the file has, and untagging removes it, provided it
is the same file. Each changes one entry or none.
-/

namespace LinkTags

/-- Why a file was not tagged or not untagged. -/
inductive TaggingError where
  | noTagDirectory (directory : Path)
  | noFileName (file : Path)
  | alreadyTagged (link : Path)
  | notTagged (link : Path)
  | differentFile (file link : Path)
  | filesystem (cause : FileError)
  deriving DecidableEq

namespace TaggingError

/-- The words for an error. -/
def message : TaggingError → String
  | noTagDirectory directory => s!"Tag directory `{directory.display}` does not exist"
  | noFileName file => s!"`{file.display}` does not name a file"
  | alreadyTagged link => s!"`{link.display}` already exists"
  | notTagged link => s!"`{link.display}` does not exist"
  | differentFile file link =>
      s!"`{link.display}` is a different file than `{file.display}`"
  | filesystem cause => cause.message

/-- The present state of the tag is in the way, rather than the file or the system. -/
def isConflict : TaggingError → Bool
  | alreadyTagged _ | notTagged _ | differentFile .. => true
  | noTagDirectory _ | noFileName _ | filesystem _ => false

end TaggingError

/-- The path of the link by which a file has the tag of a directory. -/
def tagLink? (file directory : Path) : Option Path :=
  file.fileName?.map fun name => directory.join name.path

namespace Context

/-- Link a file into a directory under its own name. The new link and the context
with it are returned. -/
def tag (context : Context) (file directory : Path) : Except TaggingError (Path × Context) :=
  match tagLink? file directory with
  | none => .error (.noFileName file)
  | some link =>
      if context.isDirectory directory then
        match context.link file link with
        | .ok after => .ok (link, after)
        | .error .alreadyExists => .error (.alreadyTagged link)
        | .error e => .error (.filesystem e)
      else .error (.noTagDirectory directory)

/-- Remove the link of a file's own name from a directory, if it is that very file.
The link removed and the context without it are returned. -/
def untag (context : Context) (file directory : Path) : Except TaggingError (Path × Context) :=
  match tagLink? file directory with
  | none => .error (.noFileName file)
  | some link =>
      if context.isDirectory directory then
        match context.identity link with
        | .error .notFound => .error (.notTagged link)
        | .error e => .error (.filesystem e)
        | .ok linked =>
            match context.identity file with
            | .error e => .error (.filesystem e)
            | .ok own =>
                if own ≠ linked then .error (.differentFile file link)
                else
                  match context.unlink link with
                  | .error e => .error (.filesystem e)
                  | .ok after => .ok (link, after)
      else .error (.noTagDirectory directory)

end Context

end LinkTags
