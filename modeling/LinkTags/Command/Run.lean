import LinkTags.Command.Batch
import LinkTags.Command.Event
import LinkTags.Query.Parser
import LinkTags.Query.Printer

/-!
# Running commands

A command that is run gives a report: the events on its way, the lines of its
output, how it failed if it did, and the context that it leaves.
-/

namespace LinkTags

/-- How a command fails. -/
inductive Failure where
  | init (e : InitError)
  | unplaced (cause : FileError)
  | noLibrary (start : Path)
  | invalidQuery (text : String) (e : QueryError)
  | search (e : SearchError)
  | attempts (action : Action) (failed total : Nat)
  | tags (e : Tag.Error)
  | linksOfDirectory (path : Path)
  | nothingThere (path : Path)
  deriving DecidableEq

namespace Failure

/-- The words for a failure. -/
def message : Failure → String
  | init e => e.message
  | unplaced cause => cause.message
  | noLibrary start =>
      let place := if start.bytes = [] then "the working directory" else start.display
      s!"No library found in `{place}` or its parents. Run `hardtag init` to create one."
  | invalidQuery text _ => s!"Invalid query `{text}`"
  | search e => e.message
  | attempts action failed total =>
      s!"Failed to {action.verb} {failed} of {total} file and tag pairs"
  | tags e => e.message
  | linksOfDirectory path =>
      s!"`{path.display}` is a directory, `--links` only lists links of files"
  | nothingThere path => s!"`{path.display}` does not exist"

/-- The words for what lies behind a failure, if something does. -/
def cause? : Failure → Option String
  | init e => e.cause?.map FileError.message
  | invalidQuery _ e => some e.message
  | search e => e.cause?.map FileError.message
  | _ => none

end Failure

/-- What running a command comes to. -/
structure Report where
  events : List Event
  output : List String
  failure : Option Failure
  context : Context

namespace Report

/-- The report of a command that fails without having changed anything. -/
def failed (context : Context) (events : List Event) (failure : Failure) : Report :=
  ⟨events, [], some failure, context⟩

/-- The report of a command that only prints. -/
def printed (context : Context) (events : List Event) (output : List String) : Report :=
  ⟨events, output, none, context⟩

end Report

/-! ## Events of the single commands -/

/-- What is said about an attempt. -/
def Attempt.events (action : Action) (attempt : Attempt) : List Event :=
  match attempt.result with
  | .ok link =>
      let change :=
        match action with
        | .tag => s!"Linked `{link.display}` to `{attempt.file.display}`"
        | .untag => s!"Unlinked `{link.display}`"
      [⟨.debug, .link, change⟩, ⟨.info, .command, link.display⟩]
  | .error e =>
      if e.isConflict then
        [⟨.warn, .command,
          s!"Skipping `{attempt.file.display}` for `{attempt.name}`: {e.message}"⟩]
      else
        [⟨.error, .command, s!"Failed to {action.verb} `{attempt.file.display}` with " ++
          s!"`{attempt.name}`: {e.message}"⟩]

/-- The paths that a search reads: those of the leaves, up to the first that fails. -/
def Context.pathsRead (context : Context) : List Path → List Path
  | [] => []
  | path :: rest =>
      match context.matchesIn path with
      | .ok _ => path :: context.pathsRead rest
      | .error _ => [path]

/-! ## The commands -/

namespace Context

/-- Make a directory the root of a library. -/
def runInit (context : Context) (path : Path) : Report :=
  match context.initLibrary path with
  | .error e => .failed context [] (.init e)
  | .ok after =>
      ⟨[⟨.debug, .init, s!"Created `{(path.join marker).display}`"⟩,
        ⟨.info, .command, s!"Initialized library at `{path.display}`"⟩], [], none, after⟩

/-- Attempt an action on every pair of a file and a tag. -/
def runChange (context : Context) (library : Library) (action : Action) (files : List Path)
    (tags : List String) : Report :=
  let (attempts, after) := action.attemptAll library context (allPairs files tags)
  let failed := (attempts.filter Attempt.failed).length
  let failure :=
    if failed = 0 then none
    else some (.attempts action failed (files.length * tags.length))
  ⟨attempts.flatMap (Attempt.events action), [], failure, after⟩

/-- Print one path for each file that matches the query spelled by the words. -/
def runSearch (context : Context) (library : Library) (words : List String) : Report :=
  let text := " ".intercalate words
  match Query.parse text with
  | .error e => .failed context [] (.invalidQuery text e)
  | .ok query =>
      let reads := context.pathsRead (query.leaves.map library.resolveAsPath)
      let events : List Event :=
        [⟨.trace, .query, s!"Parsed `{text}` as `{query.print}`"⟩,
          ⟨.info, .command, s!"Searching for `{query.print}`"⟩] ++
        reads.map fun path => ⟨.debug, .search, s!"Reading `{path.display}`"⟩
      match library.search context query with
      | .error e => .failed context events (.search e)
      | .ok found => .printed context events (found.map Path.display)

/-- Print the tags or the links of a file, or the tags in a directory. -/
def runList (context : Context) (library : Library) (links : Bool) (name : String) : Report :=
  let path := library.resolveAsPath name
  if context.isRegular path then
    if links then
      match library.links context path with
      | .error e => .failed context [] (.unplaced e)
      | .ok found => .printed context [] (found.map Path.display)
    else
      match library.tagsOf context path with
      | .error e => .failed context [] (.tags e)
      | .ok found => .printed context [] (found.map Tag.text)
  else if context.isDirectory path then
    if links then .failed context [] (.linksOfDirectory path)
    else
      match library.tagsIn context name with
      | .error e => .failed context [] (.tags e)
      | .ok found => .printed context [] (found.map Tag.text)
  else .failed context [] (.nothingThere path)

/-- Run a command in the library found from a path, or from the working directory. -/
def withLibrary (context : Context) (root : Option Path) (run : Library → Report) : Report :=
  let start := root.getD ⟨[]⟩
  match Library.find context start with
  | .error e => .failed context [] (.unplaced e)
  | .ok none => .failed context [] (.noLibrary start)
  | .ok (some library) => run library

/-- Run a command. -/
def run (context : Context) (invocation : Invocation) : Report :=
  match invocation.command with
  | .init path => context.runInit path
  | .change action files tags =>
      context.withLibrary invocation.root fun library =>
        context.runChange library action files tags
  | .search words =>
      context.withLibrary invocation.root fun library => context.runSearch library words
  | .list links name =>
      context.withLibrary invocation.root fun library => context.runList library links name

end Context

end LinkTags
