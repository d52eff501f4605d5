import LinkTags.Command.Basic

/-!
# Batches

Tagging and untagging are asked for several files and several tags at once. Every
pair is attempted, all tags of the first file first, each in the context that the
attempts before it have left, and no failure stops the rest.
-/

namespace LinkTags

/-- A pair of a file and the name of a tag, and what came of attempting it. -/
structure Attempt where
  file : Path
  name : String
  result : Except TaggingError Path

/-- An attempt failed for another reason than the present state of the tag. -/
def Attempt.failed (attempt : Attempt) : Bool :=
  match attempt.result with
  | .ok _ => false
  | .error e => ¬e.isConflict

/-- Every file with every tag, all tags of the first file first. -/
def allPairs (files : List Path) (tags : List String) : List (Path × String) :=
  files.flatMap fun file => tags.map fun tag => (file, tag)

namespace Action

/-- Attempt an action on one pair. -/
def attempt (action : Action) (library : Library) (context : Context) (file : Path)
    (name : String) : Except TaggingError (Path × Context) :=
  match action with
  | .tag => library.tag context file name
  | .untag => library.untag context file name

/-- Attempt an action on all pairs in turn. -/
def attemptAll (action : Action) (library : Library) (context : Context) :
    List (Path × String) → List Attempt × Context
  | [] => ([], context)
  | (file, name) :: rest =>
      match action.attempt library context file name with
      | .ok (link, after) =>
          let (others, last) := attemptAll action library after rest
          (⟨file, name, .ok link⟩ :: others, last)
      | .error e =>
          let (others, last) := attemptAll action library context rest
          (⟨file, name, .error e⟩ :: others, last)

end Action

end LinkTags
