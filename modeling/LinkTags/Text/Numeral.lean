/-!
# Numerals

The texts that spell a number: digits with at most one point among or around them, with
or without a sign before them and an exponent after them, or one of the names of what
is no finite number.
-/

namespace LinkTags

/-- The text without one sign at its front, if it has any. -/
def dropSign : List Char → List Char
  | '+' :: rest => rest
  | '-' :: rest => rest
  | text => text

/-- One digit or more, and nothing else. -/
def isDigits (text : List Char) : Bool :=
  ¬text.isEmpty && text.all Char.isDigit

/-- Nothing, or an exponent. -/
def isExponent : List Char → Bool
  | [] => true
  | c :: rest => c.toLower = 'e' && isDigits (dropSign rest)

/-- Digits with a point or without, of which there is one at least, and after them an
exponent or nothing. -/
def isDecimal (text : List Char) : Bool :=
  let whole := text.takeWhile Char.isDigit
  match text.dropWhile Char.isDigit with
  | '.' :: rest =>
      let decimals := rest.takeWhile Char.isDigit
      isDigits (whole ++ decimals) && isExponent (rest.dropWhile Char.isDigit)
  | rest => isDigits whole && isExponent rest

/-- The name of what is no finite number, in capitals or not. -/
def isNonFinite (text : List Char) : Bool :=
  ["inf".toList, "infinity".toList, "nan".toList].contains (text.map Char.toLower)

/-- A text that spells a number. -/
def isNumeral (text : List Char) : Bool :=
  isDecimal (dropSign text) || isNonFinite (dropSign text)

example : ["+5", "-.5", "5.", "1e5", "1.5E-10", "+INF"].all fun text =>
    isNumeral text.toList := by
  decide +kernel

example : ["", "+", ".", "1e", "e5", "+-5", "0x1", "1_0", "inf.", "5 "].all fun text =>
    ¬isNumeral text.toList := by
  decide +kernel

end LinkTags
