import LinkTags.Command.Event
import LinkTags.Text.Numeral
import LinkTags.Text.Pattern.Reader

/-!
# Filters

A filter says which events are shown. It consists of directives with commas between
them. A directive gives a level, or it names what it is about and gives a level after
an equals sign, or it only names what it is about, and then lets everything pass. What
it is about are the parts of the program whose names begin as it says, and, between
brackets, the spans or the fields that an event must have. Of the directives that are
about an event the most specific one decides, and without any the event is not shown.

## Implementation notes

No event here is in a span, and each has a single field, its message. A directive that
asks for a span, or for the value of a field, is read but about no event. The value has to
be a number or a pattern all the same.

A directive is divided without the blanks around it, but its pieces are cut out of the text
with them, at the same distance from its beginning. So blanks before a directive shift all
of its pieces.
-/

namespace LinkTags

/-- What a directive asks of an event besides the part of the program it is from. -/
inductive Condition where
  | anything
  | field (name : List Char)
  | value
  | span
  deriving DecidableEq

/-- The condition holds of the events here, the same for all of them. -/
def Condition.holds : Condition → Bool
  | anything => true
  | field name => name = "message".toList
  | value => false
  | span => false

/-- One directive: the rank up to which the events it is about are shown. -/
structure Directive where
  part : List Char
  condition : Condition
  rank : Nat
  deriving DecidableEq

/-- The directives of a filter, in the order they are written in. -/
abbrev Filter := List Directive

/-- The rank that a level has as a number: up to five, written with digits and with or
without a plus sign. -/
def rankOfNumber? (text : List Char) : Option Nat :=
  let digits := match text with
    | '+' :: rest => rest
    | _ => text
  if digits = [] ∨ ¬digits.all Char.isDigit then none
  else
    let rank := digits.foldl (fun rank digit => 10 * rank + (digit.toNat - '0'.toNat)) 0
    if rank ≤ Level.trace.rank then some rank else none

/-- The rank that a level has by its name, in capitals or not. -/
def rankOfName? (text : List Char) : Option Nat :=
  match (String.ofList text).toLower with
  | "off" => some 0
  | "error" => some Level.error.rank
  | "warn" => some Level.warn.rank
  | "info" => some Level.info.rank
  | "debug" => some Level.debug.rank
  | "trace" => some Level.trace.rank
  | _ => none

/-- The rank of a level. -/
def rankOfLevel? (text : List Char) : Option Nat :=
  (rankOfNumber? text).or (rankOfName? text)

/-- A text that the value of a field can be asked for by. -/
def isValue (text : List Char) : Bool :=
  isNumeral text || isPattern text

/-- What a field asks for: that it is there, or, after an equals sign, its value. A second
equals sign ends the value. -/
def Condition.ofField? (field : List Char) : Option Condition :=
  match field.dropWhile (· ≠ '=') with
  | [] => if field = [] then none else some (.field field)
  | _ :: rest => if isValue (rest.takeWhile (· ≠ '=')) then some .value else none

namespace Directive

/-- A text to be divided: how much of it has been passed, in bytes, and what is ahead,
without blanks at the end. -/
structure Scan where
  passed : Nat
  ahead : List Char

namespace Scan

/-- The number of bytes of a text. -/
def byteCount : List Char → Nat
  | [] => 0
  | c :: rest => c.utf8Size + byteCount rest

/-- Go on after the characters that have a property. -/
def skipWhile (scan : Scan) (p : Char → Bool) : Scan :=
  ⟨scan.passed + byteCount (scan.ahead.takeWhile p), scan.ahead.dropWhile p⟩

/-- Go on after one character. -/
def skipOne (scan : Scan) : Scan :=
  ⟨scan.passed + byteCount (scan.ahead.take 1), scan.ahead.drop 1⟩

end Scan

/-- The text without its first bytes. -/
def dropBytes : Nat → List Char → List Char
  | _, [] => []
  | 0, text => text
  | count + 1, c :: rest => dropBytes (count + 1 - c.utf8Size) rest

/-- The first bytes of the text. -/
def takeBytes : Nat → List Char → List Char
  | _, [] => []
  | 0, _ => []
  | count + 1, c :: rest => c :: takeBytes (count + 1 - c.utf8Size) rest

/-- The piece of a text that two scans of it are around. -/
def piece (text : List Char) (first last : Scan) : List Char :=
  takeBytes (last.passed - first.passed) (dropBytes first.passed text)

/-- A character that the name in a directive can begin with. -/
def isInitial (c : Char) : Bool :=
  isAlphanumeric c ∨ c = '-' ∨ c = ':' ∨ c = '_'

/-- The rank that is given from some place to the end; the highest one if nothing is. -/
def rankFrom? (text : List Char) (scan : Scan) : Option Nat :=
  let level := dropBytes scan.passed text
  if level = [] then some Level.trace.rank else rankOfLevel? level

/-- What stands between brackets, the opening one having been passed, and what is after
the closing one. A field is in braces. -/
def readCondition? (text : List Char) (first : Scan) : Option (Condition × Scan) :=
  let last := first.skipWhile fun c => c ≠ ']' ∧ c ≠ '{'
  match last.ahead with
  | ']' :: _ => some (.span, last.skipOne)
  | '{' :: _ =>
      let field := last.skipOne
      let close := field.skipWhile (· ≠ '}')
      match close.ahead with
      | '}' :: ']' :: _ =>
          (Condition.ofField? (piece text field close)).map fun condition =>
            (if first.passed = last.passed then condition else .span, close.skipOne.skipOne)
      | _ => none
  | _ => none

/-- The directive that a text spells. -/
def ofChars? (text : List Char) : Option Directive :=
  let first : Scan := ⟨0, ((text.dropWhile isBlank).reverse.dropWhile isBlank).reverse⟩
  let last := first.skipWhile fun c => c ≠ '=' ∧ c ≠ '['
  let name := piece text first last
  if ¬first.ahead.head?.any fun c => isInitial c ∨ c = '[' then none
  else
    match last.ahead with
    | [] =>
        match rankOfLevel? text with
        | some rank => some ⟨[], .anything, rank⟩
        | none => some ⟨text, .anything, Level.trace.rank⟩
    | '=' :: _ => (rankFrom? text last.skipOne).map fun rank => ⟨name, .anything, rank⟩
    | _ :: _ =>
        match readCondition? text last.skipOne with
        | none => none
        | some (condition, after) =>
            match after.ahead with
            | [] => some ⟨name, condition, Level.trace.rank⟩
            | '=' :: _ =>
                (rankFrom? text after.skipOne).map fun rank => ⟨name, condition, rank⟩
            | _ => none

/-- The directive is about the events from a part of the program. -/
def covers (directive : Directive) (part : Part) : Bool :=
  directive.part.isPrefixOf part.name.toList && directive.condition.holds

/-- How specific a directive is: a longer name counts before a field. -/
def weight (directive : Directive) : Nat :=
  2 * directive.part.length + if directive.condition = .anything then 0 else 1

/-- The most specific of several directives, the last one if there are more. -/
def mostSpecific : List Directive → Option Directive
  | [] => none
  | first :: rest =>
      match mostSpecific rest with
      | none => some first
      | some other => if other.weight < first.weight then some first else some other

end Directive

namespace Filter

/-- The filter that a text spells; nothing between two commas is no directive. -/
def ofString? (text : String) : Option Filter :=
  ((text.splitOn ",").filter (· ≠ "")).mapM fun piece => Directive.ofChars? piece.toList

/-- The filter that lets the events up to a rank pass. -/
def upTo (rank : Nat) : Filter := [⟨[], .anything, rank⟩]

/-- The filter that holds: the one that is spelled, if it is one, else the one for the
verbosity. -/
def choose (verbosity : Nat) (spelled : Option String) : Filter :=
  (spelled.bind ofString?).getD (upTo (rankOfVerbosity verbosity))

/-- The rank up to which the events from a part of the program are shown. -/
def rankFor (filter : Filter) (part : Part) : Nat :=
  match Directive.mostSpecific (filter.filter fun directive => directive.covers part) with
  | some directive => directive.rank
  | none => 0

/-- The events that are shown. -/
def shown (filter : Filter) (events : List Event) : List Event :=
  events.filter fun event => event.level.rank ≤ filter.rankFor event.part

end Filter

end LinkTags
