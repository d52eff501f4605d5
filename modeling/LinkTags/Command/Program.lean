import LinkTags.Command.Arguments
import LinkTags.Command.Filter
import LinkTags.Command.Run

/-!
# The program

From the words of a command line to what is written on the two streams and the
status at the end: 0 if all went well, 1 if the command failed, 2 if there was none.
-/

namespace LinkTags

/-- What the program is called with. -/
structure Call where
  words : List Path
  /-- Where to look for a library, from the environment. -/
  root : Option Path
  /-- Which events to show, from the environment. -/
  filter : Option String

/-- What the program answers. The words of help and of usage errors are not fixed. -/
inductive Answer where
  | usage
  | help
  | finished (status : Nat) (output errors : String)
  deriving DecidableEq

/-- The name of the program and its version. -/
def versionText : String := "hardtag 0.1.0"

/-- Lines of text, each ended. -/
def unlines (lines : List String) : String :=
  String.join (lines.map (· ++ "\n"))

/-- The lines that report a failure, with what lies behind it after an empty one. -/
def Failure.lines (failure : Failure) : List String :=
  s!"Error: {failure.message}" ::
    match failure.cause? with
    | none => []
    | some cause => ["", "Caused by:", s!"    {cause}"]

namespace Report

/-- The status at the end of a command. -/
def status (report : Report) : Nat :=
  if report.failure.isSome then 1 else 0

/-- What is written on the error stream: the events that a filter shows, and a failure. -/
def errors (report : Report) (filter : Filter) : String :=
  unlines ((filter.shown report.events).map Event.line ++
    (report.failure.map Failure.lines).getD [])

/-- What the program answers with a report, showing the events that a filter does. -/
def answer (report : Report) (filter : Filter) : Answer :=
  .finished report.status (unlines report.output) (report.errors filter)

end Report

/-- What the program answers when no command is run. -/
def Stop.answer : Stop → Answer
  | usage => .usage
  | help => .help
  | version => .finished 0 (unlines [versionText]) ""

/-- Run the program: what it answers, and the context it leaves. -/
def Context.call (context : Context) (call : Call) : Answer × Context :=
  match Invocation.parse call.words call.root with
  | .error stop => (stop.answer, context)
  | .ok invocation =>
      let report := context.run invocation
      (report.answer (.choose invocation.verbosity call.filter), report.context)

end LinkTags
