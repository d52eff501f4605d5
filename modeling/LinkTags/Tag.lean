import LinkTags.FileSystem.Lookup
import LinkTags.Path.Text

/-!
# Tags

A tag is a text that starts with two slashes. It names a directory by its way from
the root of a library: `//` the root itself, `//music/live` a directory below it,
and `//../shelf` one beside it. A tag and a path to the same directory are turned
into each other by looking at the texts alone and at the working directory.
-/

namespace LinkTags

/-- The mark of a tag. -/
def tagMark : String := "//"

/-- A text that is a tag. -/
def IsTag (text : String) : Prop :=
  [slash, slash] <+: (Path.ofString text).bytes

instance (text : String) : Decidable (IsTag text) :=
  inferInstanceAs (Decidable (_ <+: _))

theorem isTag_append (text : String) : IsTag (tagMark ++ text) := by
  refine ⟨(Path.ofString text).bytes, ?_⟩
  simp only [Path.ofString, String.toByteArray_append, ByteArray.data_append,
    Array.toList_append]
  rfl

/-- A directory, named by its way from the root of a library. -/
structure Tag where
  text : String
  marked : IsTag text
  deriving DecidableEq

/-- A text that was to be a tag and is none. -/
structure NotATag where
  text : String
  deriving DecidableEq

/-- The words for a text that is no tag. -/
def NotATag.message (e : NotATag) : String :=
  s!"`{e.text}` is not a tag: tags must start with `{tagMark}`"

namespace Tag

/-- Why there is no tag: the file system refuses, or the way from the root is not text. -/
inductive Error where
  | filesystem (cause : FileError)
  | notText (way : Path)
  deriving DecidableEq

/-- The words for what has no tag. -/
def Error.message : Error → String
  | .filesystem cause => cause.message
  | .notText way => s!"`{way.display}` is not valid UTF-8"

/-- The tag that a text is. -/
def ofString (text : String) : Except NotATag Tag :=
  if h : IsTag text then .ok ⟨text, h⟩ else .error ⟨text⟩

/-- The tag for a way from the root, which has to be text. -/
def ofRoute (route : Route) : Except Error Tag :=
  match route.toPath.toString? with
  | some text => .ok ⟨tagMark ++ text, isTag_append text⟩
  | none => .error (.notText route.toPath)

/-- The tag of the directory that a path names, in a library at `root`. Both are
taken from the working directory. -/
def ofPath (context : Context) (root path : Path) : Except Error Tag :=
  match context.absolute path with
  | .error e => .error (.filesystem e)
  | .ok route =>
      match context.absolute root with
      | .error e => .error (.filesystem e)
      | .ok base => ofRoute (route.relativeTo base)

/-- The way from the root that a tag spells. Every leading slash belongs to the mark. -/
def way (tag : Tag) : Path :=
  ⟨(Path.ofString tag.text).bytes.dropWhile (· = slash)⟩

/-- The path of the directory that a tag names, in a library at `root`. -/
def toPath (root : Path) (tag : Tag) : Path :=
  if tag.way.bytes = [] then root else root.join tag.way

/-- Tags in the order of their texts, each once. -/
def inOrder (tags : List Tag) : List Tag :=
  (tags.mergeSort fun a b => a.text ≤ b.text).eraseDups

end Tag

/-- The path that a name stands for: a tag is taken from `root`, and any other name
is a path as it is. -/
def resolveAsPath (root : Path) (name : String) : Path :=
  if h : IsTag name then Tag.toPath root ⟨name, h⟩ else Path.ofString name

/-- The tag that a name stands for: a tag itself, or the tag of the path it is. -/
def resolveAsTag (context : Context) (root : Path) (name : String) : Except Tag.Error Tag :=
  if h : IsTag name then .ok ⟨name, h⟩ else Tag.ofPath context root (Path.ofString name)

end LinkTags
