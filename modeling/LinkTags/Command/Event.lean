import LinkTags.Text.Control

/-!
# Events

What a command says about its work while it runs. Each event has a level and comes
from a part of the program. It is shown on a line that no control character of a path
in it can disturb.
-/

namespace LinkTags

/-- How much an event matters. -/
inductive Level where
  | error
  | warn
  | info
  | debug
  | trace
  deriving DecidableEq, Repr

namespace Level

/-- The place of a level, the weightiest being the first. -/
def rank : Level → Nat
  | error => 1
  | warn => 2
  | info => 3
  | debug => 4
  | trace => 5

/-- The name of a level, in five columns. -/
def label : Level → String
  | error => "ERROR"
  | warn => " WARN"
  | info => " INFO"
  | debug => "DEBUG"
  | trace => "TRACE"

end Level

/-- The parts of the program that say something. -/
inductive Part where
  | command
  | init
  | query
  | search
  | link
  deriving DecidableEq, Repr

/-- The name of a part, the same in its beginning for all of them. -/
def Part.name : Part → String
  | command => "hardtag"
  | init => "hardtag::library::init"
  | query => "hardtag::query"
  | search => "hardtag::search"
  | link => "hardtag::link"

/-- Something worth saying, how much it matters, and where it comes from. -/
structure Event where
  level : Level
  part : Part
  message : String
  deriving DecidableEq, Repr

namespace Event

/-- The line that shows an event. -/
def line (event : Event) : String :=
  s!"{event.level.label} {showControls event.message}"

end Event

/-- The rank up to which events are shown at a verbosity. -/
def rankOfVerbosity : Nat → Nat
  | 0 => Level.warn.rank
  | 1 => Level.info.rank
  | 2 => Level.debug.rank
  | _ => Level.trace.rank

end LinkTags
