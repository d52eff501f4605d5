import LinkTags.Command.Program
import LinkTags.FileSystem.Edit

/-!
# The command line

The program runs one command in a tree that is described on standard input, a
change to a line: a word and its paths, with tabs between them. The command comes
from the arguments, its settings from the arguments and the environment.
-/

namespace LinkTags

/-- The change that a line describes. -/
def Edit.ofLine? (line : String) : Option Edit :=
  match line.splitOn "\t" with
  | ["directory", path] => some (.directory (.ofString path))
  | ["file", path] => some (.file (.ofString path))
  | ["fifo", path] => some (.fifo (.ofString path))
  | ["link", old, new] => some (.link (.ofString old) (.ofString new))
  | ["symlink", target, new] => some (.symlink (.ofString target) (.ofString new))
  | ["move", old, new] => some (.move (.ofString old) (.ofString new))
  | ["remove", path] => some (.remove (.ofString path))
  | ["enter", path] => some (.enter (.ofString path))
  | _ => none

/-- The tree that lines describe, or what is wrong with them. -/
def Context.describedBy (lines : List String) : Except String Context :=
  match (lines.filter (· ≠ "")).mapM Edit.ofLine? with
  | none => .error "A line of the tree is not understood"
  | some edits => (Context.empty.editAll edits).mapError FileError.message

/-- How the program is called. -/
def usageText : String :=
  unlines
    ["Usage: hardtag [--root ROOT] [-v]... COMMAND",
      "",
      "Commands:",
      "  init [PATH]                        make a directory the root of a library",
      "  tag -f FILE... -- TAG...           link files into tag directories",
      "  untag -f FILE... -- TAG...         unlink files from tag directories",
      "  search WORD...                     print files matching a query",
      "  list [--links] PATH                print tags of a file, or in a directory"]

end LinkTags

open LinkTags

def main (arguments : List String) : IO UInt32 := do
  let lines := (← (← IO.getStdin).readToEnd).splitOn "\n"
  match Context.describedBy lines with
  | .error e =>
      IO.eprintln e
      return 1
  | .ok context =>
      let call : Call := {
        words := arguments.map Path.ofString
        root := (← IO.getEnv "HARDTAG_ROOT").map Path.ofString
        filter := ← IO.getEnv "RUST_LOG" }
      match (context.call call).1 with
      | .usage =>
          IO.eprint usageText
          return 2
      | .help =>
          IO.print usageText
          return 0
      | .finished status output errors =>
          IO.print output
          IO.eprint errors
          return status.toUInt32
