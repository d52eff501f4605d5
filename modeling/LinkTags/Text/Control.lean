/-!
# Control characters

The characters that can make a terminal do something are not shown as they are: the
code of each is written instead, in base sixteen after a backslash. Line breaks, tabs
and the other controls of ASCII are harmless, and stay.
-/

namespace LinkTags

/-- The control characters of ASCII that are hidden: bell, backspace, form feed,
escape and delete. -/
def hiddenCodes : List Nat := [0x07, 0x08, 0x0c, 0x1b, 0x7f]

/-- A character that is hidden: one of a few of ASCII, or a control beyond ASCII. -/
def isHidden (c : Char) : Bool :=
  c.toNat ∈ hiddenCodes || (0x80 ≤ c.toNat && c.toNat ≤ 0x9f)

/-- The two digits of a code below 256 in base sixteen. -/
def hexPair (code : Nat) : List Char :=
  [Nat.digitChar (code / 16), Nat.digitChar (code % 16)]

/-- The characters that show a character: its code if it is hidden, with an `x` for
a character of ASCII and with a `u` and braces for another, else the character. -/
def showChar (c : Char) : List Char :=
  if isHidden c then
    if c.toNat < 0x80 then ['\\', 'x'] ++ hexPair c.toNat
    else ['\\', 'u', '{'] ++ hexPair c.toNat ++ ['}']
  else [c]

/-- The text that shows a text, each hidden character by its code. -/
def showControls (text : String) : String :=
  String.ofList (text.toList.flatMap showChar)

example : showControls "a\x1bb\x7f" = "a\\x1bb\\x7f" := by decide +kernel

example : showControls "\x08\u0085" = "\\x08\\u\x7b85\x7d" := by decide +kernel

example : showControls "\t\n\x01\u00a0" = "\t\n\x01\u00a0" := by decide +kernel

end LinkTags
