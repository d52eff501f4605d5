import LinkTags.Text.Alphanumeric
import LinkTags.Text.Pattern.CharClass

/-!
# Reading patterns

A pattern is read from left to right. The groups that are open at some place form a
stack, each with what was read before it at the level outside; a group that is closed
becomes an item there. A pattern is one if nothing in it is refused, if nothing is open
at its end, and if it is not too deep.
-/

namespace LinkTags.Pattern

/-- An item of a pattern: how deep it is, and whether it can be repeated. Flags cannot. -/
structure Item where
  depth : Nat
  isRepeatable : Bool
  deriving DecidableEq

/-- What has been read at one level: the items of the last choice, the last one first,
and the depths of the choices before it. -/
structure Choices where
  items : List Item
  before : List Nat
  deriving DecidableEq

namespace Choices

/-- The depth of the last choice. -/
def depthOfLast (choices : Choices) : Nat :=
  depthTogether (choices.items.map Item.depth)

/-- The depth of all choices together. -/
def depth (choices : Choices) : Nat :=
  depthTogether (choices.depthOfLast :: choices.before)

/-- One more item has been read. -/
def push (choices : Choices) (depth : Nat) : Choices :=
  { choices with items := ⟨depth, true⟩ :: choices.items }

/-- Another choice begins. -/
def split (choices : Choices) : Choices :=
  ⟨[], choices.depthOfLast :: choices.before⟩

/-- The last item is repeated. -/
def repeat? (choices : Choices) : Option Choices :=
  match choices.items with
  | ⟨depth, true⟩ :: items => some ⟨⟨depth + 1, true⟩ :: items, choices.before⟩
  | _ => none

end Choices

/-- What is outside a group that is open, and the mode that holds there. -/
structure Outside where
  mode : Mode
  choices : Choices
  deriving DecidableEq

/-- How far a pattern has been read: the open classes and the open groups, the innermost
first, what has been read at the innermost level, and the names of groups. -/
structure Progress where
  mode : Mode
  choices : Choices
  groups : List Outside
  classes : List OpenClass
  names : List (List Char)
  deriving DecidableEq

/-- How deep a pattern may be. -/
def maxDepth : Nat := 250

/-- A character that the name of a group can begin with. -/
def isNameInitial (c : Char) : Bool :=
  c = '_' || isAlphabetic c

/-- A character that the name of a group can go on with. -/
def isNameInner (c : Char) : Bool :=
  c ∈ ['_', '.', '[', ']'] || isAlphanumeric c

/-- A name that a group can have. -/
def isGroupName : List Char → Bool
  | [] => false
  | c :: rest => isNameInitial c && rest.all isNameInner

namespace Progress

/-- Nothing has been read. -/
def start : Progress := ⟨.initial, ⟨[], []⟩, [], [], []⟩

/-- A group has been opened, in which a mode holds. -/
def openGroup (progress : Progress) (mode : Mode) : Progress :=
  { progress with
    mode
    choices := ⟨[], []⟩
    groups := ⟨progress.mode, progress.choices⟩ :: progress.groups }

/-- Open a group with a name, at which the text begins. -/
def openNamed? (progress : Progress) (text : List Char) : Option (Progress × List Char) :=
  let name := text.takeWhile (· ≠ '>')
  match text.dropWhile (· ≠ '>') with
  | [] => none
  | _ :: rest =>
      if isGroupName name && !progress.names.contains name then
        some ({ progress.openGroup progress.mode with names := name :: progress.names }, rest)
      else none

/-- Read flags, which hold in a group or up to the end of the one that is open. -/
def readFlags? (progress : Progress) (text : List Char) : Option (Progress × List Char) :=
  match Mode.readFlags [] text with
  | some (flags, ':' :: rest) => some (progress.openGroup (progress.mode.change flags), rest)
  | some (flags, _ :: rest) =>
      if flags = [] then none
      else
        let items := ⟨0, false⟩ :: progress.choices.items
        some ({ progress with
          mode := progress.mode.change flags
          choices := { progress.choices with items } }, rest)
  | _ => none

/-- Read what is after an opening parenthesis: the name of a group, flags, or nothing. -/
def readOpening? (progress : Progress) (text : List Char) : Option (Progress × List Char) :=
  match progress.mode.skip text with
  | '?' :: 'P' :: '<' :: rest => progress.openNamed? rest
  | '?' :: '<' :: rest => progress.openNamed? rest
  | '?' :: rest => progress.readFlags? rest
  | rest => some (progress.openGroup progress.mode, rest)

/-- Close the innermost group. -/
def close? (progress : Progress) : Option Progress :=
  match progress.groups with
  | [] => none
  | outside :: groups =>
      some { progress with
        mode := outside.mode
        choices := outside.choices.push (progress.choices.depth + 1)
        groups }

/-- One more atom has been read. -/
def push? (progress : Progress) (atom : Atom) : Option Progress :=
  if atom.isAllowed progress.mode then
    some { progress with choices := progress.choices.push 0 }
  else none

/-- The last item is repeated, as often as can be or, with a question mark, as seldom. -/
def repeat? (progress : Progress) (text : List Char) : Option (Progress × List Char) :=
  progress.choices.repeat?.map fun choices =>
    ({ progress with choices }, if text.head? = some '?' then text.tail else text)

/-- Read one part of a class. -/
def readInClass? (progress : Progress) (cls : OpenClass) (outer : List OpenClass)
    (text : List Char) : Option (Progress × List Char) :=
  match ClassStep.read? progress.mode cls outer text with
  | none => none
  | some (.within classes, rest) => some ({ progress with classes }, rest)
  | some (.closed depth, rest) =>
      some ({ progress with classes := [], choices := progress.choices.push depth }, rest)

/-- Read one part of a pattern outside classes. Braces would give a number of
repetitions; no text has both of them. -/
def readOutside? (progress : Progress) : List Char → Option (Progress × List Char)
  | [] => none
  | '(' :: rest => progress.readOpening? rest
  | ')' :: rest => progress.close?.map fun next => (next, rest)
  | '|' :: rest => some ({ progress with choices := progress.choices.split }, rest)
  | '[' :: rest =>
      (OpenClass.open? progress.mode rest).map fun (cls, rest) =>
        ({ progress with classes := [cls] }, rest)
  | '?' :: rest => progress.repeat? rest
  | '*' :: rest => progress.repeat? rest
  | '+' :: rest => progress.repeat? rest
  | '{' :: _ => none
  | '\\' :: rest =>
      match Atom.readEscaped progress.mode rest with
      | none => none
      | some (atom, rest) => (progress.push? atom).map fun next => (next, rest)
  | c :: rest =>
      let atom : Atom :=
        if c = '.' then .any
        else if c = '^' ∨ c = '$' then .place
        else .literal ⟨c, false⟩
      (progress.push? atom).map fun next => (next, rest)

/-- Read one part of a pattern. -/
def read? (progress : Progress) (text : List Char) : Option (Progress × List Char) :=
  match progress.classes with
  | [] => progress.readOutside? text
  | cls :: outer => progress.readInClass? cls outer text

/-- Read a pattern to its end, in as many steps as are given at most. -/
def run? : Nat → Progress → List Char → Option Progress
  | 0, _, _ => none
  | steps + 1, progress, text =>
      match progress.mode.skip text with
      | [] => some progress
      | c :: rest =>
          match progress.read? (c :: rest) with
          | none => none
          | some (next, rest) => run? steps next rest

/-- Nothing is open, and what has been read is not too deep. -/
def isComplete (progress : Progress) : Bool :=
  progress.groups.isEmpty && progress.classes.isEmpty && progress.choices.depth ≤ maxDepth

end Progress

end LinkTags.Pattern

namespace LinkTags

/-- A text that is a pattern. Every step reads a character at least, so that there is one
step for each and one for the end. -/
def isPattern (text : List Char) : Bool :=
  (Pattern.Progress.run? (text.length + 1) .start text).any Pattern.Progress.isComplete

example : ["", "a|b", "(?<n>[^a-c])+?", "(?-u:\\b\\d)", "(?x) a # (", "[]a]", "[a&&b]"].all
    fun text => isPattern text.toList := by
  decide +kernel

example : ["(", "a)", "[a", "*", "(?i)*", "(?i)a", "\\d", "[b-a]", "(?<n>a)(?<n>b)"].all
    fun text => ¬isPattern text.toList := by
  decide +kernel

end LinkTags
