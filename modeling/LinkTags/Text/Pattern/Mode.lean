import LinkTags.Text.Blank

/-!
# How patterns are read

A pattern is a text that describes other texts: letters stand for themselves, and some
signs for choices, repetitions and kinds of characters. How the next part of it is read
depends on flags, which the pattern itself can set from any place on.
-/

namespace LinkTags.Pattern

/-- How a pattern is read from some place on. -/
structure Mode where
  /-- A letter stands for itself in capitals and not. -/
  ignoreCase : Bool
  /-- What is described are characters, not bytes. -/
  unicode : Bool
  /-- Blanks and comments in the pattern mean nothing. -/
  spaced : Bool
  deriving DecidableEq

namespace Mode

/-- How a pattern is read at its beginning. -/
def initial : Mode := ⟨false, true, false⟩

/-- The text after the blanks and the comments at its front. A comment begins with `#`
and ends with its line. -/
def afterSpace (inComment : Bool) : List Char → List Char
  | [] => []
  | c :: rest =>
      if inComment then afterSpace (c ≠ '\n') rest
      else if c = '#' then afterSpace true rest
      else if isBlank c then afterSpace false rest
      else c :: rest

/-- The text from where something is that means something. -/
def skip (mode : Mode) (text : List Char) : List Char :=
  if mode.spaced then afterSpace false text else text

/-- The next character that counts after a dash in a class. Of a comment only its sign
is passed over, so that its first character counts. -/
def peek (mode : Mode) (text : List Char) : Option Char :=
  if mode.spaced then
    match text.dropWhile isBlank with
    | '#' :: rest => (rest.dropWhile isBlank).head?
    | rest => rest.head?
  else text.head?

/-- The flags that a mode can be changed by: ignoring case, characters, blanks, and some
that make no difference to what a pattern is. -/
def flags : List Char := ['i', 'u', 'x', 'm', 's', 'R', 'U']

/-- The flags at the front of a text up to a colon or a parenthesis, each once at most.
Those after a dash are taken away, and one has to be after it. `seen` are the ones
before, the last one first. -/
def readFlags (seen : List Char) : List Char → Option (List Char × List Char)
  | [] => none
  | c :: rest =>
      if c = ':' ∨ c = ')' then
        if seen.head? = some '-' then none else some (seen.reverse, c :: rest)
      else if c ∈ '-' :: flags ∧ c ∉ seen then readFlags (c :: seen) rest
      else none

/-- What some flags make of one of them. -/
def setting (written : List Char) (flag : Char) (before : Bool) : Bool :=
  if flag ∈ written.takeWhile (· ≠ '-') then true
  else if flag ∈ written then false
  else before

/-- The mode after some flags. -/
def change (mode : Mode) (written : List Char) : Mode :=
  ⟨setting written 'i' mode.ignoreCase, setting written 'u' mode.unicode,
    setting written 'x' mode.spaced⟩

example : readFlags [] "i-u:a".toList = some ("i-u".toList, ":a".toList) := by decide

example : ["ii)", "i-)", "i-i)", "a)", "i"].all fun text =>
    (readFlags [] text.toList).isNone := by
  decide

example : initial.change "i-u".toList = ⟨true, false, false⟩ := by decide

end Mode

end LinkTags.Pattern
