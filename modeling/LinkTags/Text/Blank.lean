/-!
# White space

The characters with the Unicode property `White_Space`, which separate the words
of a query. There are twenty-five of them, none beyond U+3000.
-/

namespace LinkTags

/-- The ranges of the property `White_Space`, ends included. -/
def blankRanges : List (Nat × Nat) :=
  [(0x9, 0xd), (0x20, 0x20), (0x85, 0x85), (0xa0, 0xa0), (0x1680, 0x1680),
    (0x2000, 0x200a), (0x2028, 0x2029), (0x202f, 0x202f), (0x205f, 0x205f),
    (0x3000, 0x3000)]

/-- A character that separates words. -/
def isBlank (c : Char) : Bool :=
  blankRanges.any fun range => range.1 ≤ c.toNat && c.toNat ≤ range.2

example : (blankRanges.map fun range => range.2 + 1 - range.1).sum = 25 := by decide

example : isBlank '\t' ∧ isBlank ' ' ∧ isBlank (Char.ofNat 0x3000) := by decide

example : ¬isBlank (Char.ofNat 0x200b) ∧ ¬isBlank 'a' := by decide

end LinkTags
