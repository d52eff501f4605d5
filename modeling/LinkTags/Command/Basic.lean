import LinkTags.Library

/-!
# Commands

What can be asked of the program: a command, with the path from which its library
is looked for and how much it is to say about its work.
-/

namespace LinkTags

/-- What is done to every pair of a file and a tag. -/
inductive Action where
  | tag
  | untag
  deriving DecidableEq

/-- The verb of an action. -/
def Action.verb : Action → String
  | tag => "tag"
  | untag => "untag"

/-- A command. -/
inductive Command where
  | init (path : Path)
  | change (action : Action) (files : List Path) (tags : List String)
  | search (words : List String)
  | list (links : Bool) (name : String)
  deriving DecidableEq

/-- A command with its settings. -/
structure Invocation where
  root : Option Path
  verbosity : Nat
  command : Command
  deriving DecidableEq

end LinkTags
