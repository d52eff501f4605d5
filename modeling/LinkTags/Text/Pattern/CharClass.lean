import LinkTags.Text.Pattern.Atom

/-!
# Classes of characters

A class stands between brackets and is read from left to right. It holds characters,
ranges of them, kinds by name, and classes again, and there may be operators between
groups of these. Only its depth is kept, which is how often something in it is part of
something else.
-/

namespace LinkTags.Pattern

/-- The depth of several parts together: a single part is no deeper by itself. -/
def depthTogether : List Nat → Nat
  | [] => 0
  | [depth] => depth
  | depths => depths.foldl max 0 + 1

/-- A class that is open. -/
structure OpenClass where
  /-- Only its opening and dashes have been read. -/
  isFresh : Bool
  /-- The depth of what is to the left of the last operator. -/
  left : Option Nat
  /-- The depths of what has been read since. -/
  items : List Nat
  deriving DecidableEq

namespace OpenClass

/-- The depth of all that has been read. -/
def depth (cls : OpenClass) : Nat :=
  match cls.left with
  | none => depthTogether cls.items
  | some left => max left (depthTogether cls.items) + 1

/-- One more part has been read. -/
def push (cls : OpenClass) (depth : Nat) : OpenClass :=
  ⟨false, cls.left, depth :: cls.items⟩

/-- An operator has been read. -/
def operate (cls : OpenClass) : OpenClass :=
  ⟨false, some cls.depth, []⟩

/-- Open a class, the bracket having been read. Without whole characters a class cannot
be of all but some. -/
def open? (mode : Mode) (text : List Char) : Option (OpenClass × List Char) :=
  match mode.skip text with
  | '^' :: rest => if mode.unicode then some (⟨true, none, []⟩, rest) else none
  | rest => some (⟨true, none, []⟩, rest)

/-- The kinds of characters that have a name. -/
def kindNames : List (List Char) :=
  ["alnum", "alpha", "ascii", "blank", "cntrl", "digit", "graph", "lower", "print",
    "punct", "space", "upper", "word", "xdigit"].map String.toList

/-- Read the name of a kind of characters after a bracket, between colons and followed by
another bracket. It is negated by a sign before it. -/
def readKind? (text : List Char) : Option (Bool × List Char) :=
  match text with
  | ':' :: rest =>
      let negated := rest.head? = some '^'
      let name := if negated then rest.tail else rest
      match name.dropWhile (· ≠ ':') with
      | ':' :: ']' :: rest =>
          if kindNames.contains (name.takeWhile (· ≠ ':')) then some (negated, rest)
          else none
      | _ => none
  | _ => none

/-- A kind of characters by name can be used, negated or not. -/
def allowsKind (mode : Mode) (negated : Bool) : Bool :=
  if mode.unicode then !mode.ignoreCase else !negated

/-- Read one end of a range, or what stands alone. -/
def readAtom (mode : Mode) : List Char → Option (Atom × List Char)
  | [] => none
  | '\\' :: rest => Atom.readEscaped mode rest
  | c :: rest => some (.literal ⟨c, false⟩, rest)

/-- The range between two parts: both are characters, and they are in order. -/
def isRange (mode : Mode) (low high : Atom) : Bool :=
  match low, high with
  | .literal low, .literal high =>
      low.char ≤ high.char && Atom.isAllowedInClass mode (.literal low) &&
        Atom.isAllowedInClass mode (.literal high)
  | _, _ => false

/-- Read a range, or a part that stands alone. A dash before a dash or before the end of
the class makes no range. -/
def readRange? (mode : Mode) (text : List Char) : Option (List Char) :=
  match readAtom mode text with
  | none => none
  | some (low, rest) =>
      match mode.skip rest with
      | '-' :: rest =>
          if mode.peek rest = some ']' ∨ mode.peek rest = some '-' then
            if low.isAllowedInClass mode then some ('-' :: rest) else none
          else
            match readAtom mode (mode.skip rest) with
            | some (high, rest) => if isRange mode low high then some rest else none
            | none => none
      | rest => if low.isAllowedInClass mode then some rest else none

end OpenClass

/-- What reading one part of a class leaves: the open classes, the innermost first, or
the depth of the outermost one, which has been closed. -/
inductive ClassStep where
  | within (classes : List OpenClass)
  | closed (depth : Nat)

namespace ClassStep

/-- Close the innermost class. -/
def close (cls : OpenClass) : List OpenClass → ClassStep
  | [] => .closed (cls.depth + 1)
  | outer :: rest => .within (outer.push (cls.depth + 1) :: rest)

/-- Read one part of the innermost class. At its beginning dashes stand for themselves,
and so does its end if nothing has been read. -/
def read? (mode : Mode) (cls : OpenClass) (outer : List OpenClass) (text : List Char) :
    Option (ClassStep × List Char) :=
  let literal (c : Char) (isFresh : Bool) (rest : List Char) :=
    if Atom.isAllowedInClass mode (.literal ⟨c, false⟩) then
      some (within (⟨isFresh, cls.left, 0 :: cls.items⟩ :: outer), rest)
    else none
  match text with
  | [] => none
  | '[' :: rest =>
      match OpenClass.readKind? rest with
      | some (negated, rest) =>
          if OpenClass.allowsKind mode negated then some (within (cls.push 0 :: outer), rest)
          else none
      | none =>
          match OpenClass.open? mode rest with
          | some (inner, rest) =>
              some (within (inner :: { cls with isFresh := false } :: outer), rest)
          | none => none
  | ']' :: rest =>
      if cls.isFresh ∧ cls.items = [] then literal ']' false rest
      else some (close cls outer, rest)
  | '-' :: rest =>
      if cls.isFresh then literal '-' true rest
      else if rest.head? = some '-' then some (within (cls.operate :: outer), rest.tail)
      else (OpenClass.readRange? mode text).map fun rest => (within (cls.push 0 :: outer), rest)
  | '&' :: '&' :: rest => some (within (cls.operate :: outer), rest)
  | '~' :: '~' :: rest => some (within (cls.operate :: outer), rest)
  | _ => (OpenClass.readRange? mode text).map fun rest => (within (cls.push 0 :: outer), rest)

end ClassStep

end LinkTags.Pattern
