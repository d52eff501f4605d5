import LinkTags.Text.Pattern.Mode

/-!
# The smallest parts of patterns

A character, a kind of characters, or a place in the text that is described. A backslash
begins those that are not written as themselves. Which of them can be used depends on the
mode: characters are described without their kinds and without their capitals, and bytes
only as long as what is described is made of whole characters.
-/

namespace LinkTags.Pattern

/-- A character of a pattern. -/
structure Literal where
  char : Char
  /-- It is written as the number of a byte. -/
  isByte : Bool
  deriving DecidableEq

/-- A smallest part of a pattern. -/
inductive Atom where
  | literal (literal : Literal)
  | any
  | kind (negated : Bool)
  | place
  | wordEdge
  deriving DecidableEq

/-- A character of ASCII. -/
def isAscii (c : Char) : Bool := c.toNat < 0x80

/-- The value of a digit to the base sixteen. -/
def hexValue? (c : Char) : Option Nat :=
  if c.isDigit then some (c.toNat - '0'.toNat)
  else if 'a' ≤ c ∧ c ≤ 'f' then some (c.toNat - 'a'.toNat + 10)
  else if 'A' ≤ c ∧ c ≤ 'F' then some (c.toNat - 'A'.toNat + 10)
  else none

/-- The character with a number. -/
def charOfNat? (value : Nat) : Option Char :=
  if value.isValidChar then some (Char.ofNat value) else none

namespace Atom

/-- Read the number of a character in as many digits to the base sixteen as are asked
for. -/
def readHex (mode : Mode) (isByte : Bool) :
    Nat → Nat → List Char → Option (Atom × List Char)
  | 0, value, text =>
      (charOfNat? value).map fun c => (.literal ⟨c, isByte⟩, text)
  | digits + 1, value, text =>
      match mode.skip text with
      | [] => none
      | c :: rest =>
          match hexValue? c with
          | none => none
          | some digit => readHex mode isByte digits (16 * value + digit) rest

/-- The control characters that have a letter. -/
def controlLetters : List (Char × Nat) :=
  [('a', 0x7), ('t', 0x9), ('n', 0xa), ('v', 0xb), ('f', 0xc), ('r', 0xd)]

/-- What a character means after a backslash, if it does not begin the number of a
character. Signs stand for themselves, and letters for what they are agreed on to. -/
def ofEscaped? (c : Char) : Option Atom :=
  if c ∈ ['d', 's', 'w'] then some (.kind false)
  else if c ∈ ['D', 'S', 'W'] then some (.kind true)
  else if c ∈ ['A', 'z'] then some .place
  else if c ∈ ['b', 'B', '<', '>'] then some .wordEdge
  else
    match controlLetters.lookup c with
    | some value => some (.literal ⟨Char.ofNat value, false⟩)
    | none => if isAscii c ∧ ¬c.isAlphanum then some (.literal ⟨c, false⟩) else none

/-- Read what is after a backslash. -/
def readEscaped (mode : Mode) : List Char → Option (Atom × List Char)
  | [] => none
  | 'x' :: rest => readHex mode true 2 0 rest
  | 'u' :: rest => readHex mode false 4 0 rest
  | 'U' :: rest => readHex mode false 8 0 rest
  | c :: rest => (ofEscaped? c).map fun atom => (atom, rest)

/-- The part can be used outside classes. -/
def isAllowed (mode : Mode) : Atom → Bool
  | literal l => if mode.unicode then !mode.ignoreCase else !l.isByte || isAscii l.char
  | any => mode.unicode
  | kind negated => !mode.unicode && !negated
  | place => true
  | wordEdge => !mode.unicode

/-- The part can be used in a class. -/
def isAllowedInClass (mode : Mode) : Atom → Bool
  | literal l => if mode.unicode then !mode.ignoreCase else isAscii l.char
  | kind negated => !mode.unicode && !negated
  | _ => false

example : readEscaped .initial "x41b".toList = some (.literal ⟨'A', true⟩, ['b']) := by decide

example : ["1", "x4", "x\x7b41", "uD800", "pL", "Q", "é"].all fun text =>
    (readEscaped .initial text.toList).isNone := by
  decide

end Atom

end LinkTags.Pattern
