/-!
# Bytes as text, with replacements

Bytes that are not UTF-8 are shown with the replacement character. Every maximal
run of bytes that starts like a character and breaks off is replaced once, and so
is every byte that can start none.
-/

namespace LinkTags.Utf8

/-- A character of which some bytes have been read: the next byte must lie between
`low` and `high`, `more` further ones follow it, and `value` is the code so far. -/
structure Pending where
  low : Nat
  high : Nat
  more : Nat
  value : Nat
  deriving DecidableEq

/-- The character U+FFFD, which stands for bytes that are not text. -/
def replacement : Char := Char.ofNat 0xfffd

/-- The character that a first byte of several begins. The bounds on the second
byte leave out overlong forms, surrogates and codes above U+10FFFF. -/
def lead (b : Nat) : Option Pending :=
  if 0xc2 ≤ b ∧ b ≤ 0xdf then some ⟨0x80, 0xbf, 0, b - 0xc0⟩
  else if b = 0xe0 then some ⟨0xa0, 0xbf, 1, 0⟩
  else if b = 0xed then some ⟨0x80, 0x9f, 1, 0xd⟩
  else if 0xe1 ≤ b ∧ b ≤ 0xef then some ⟨0x80, 0xbf, 1, b - 0xe0⟩
  else if b = 0xf0 then some ⟨0x90, 0xbf, 2, 0⟩
  else if 0xf1 ≤ b ∧ b ≤ 0xf3 then some ⟨0x80, 0xbf, 2, b - 0xf0⟩
  else if b = 0xf4 then some ⟨0x80, 0x8f, 2, 4⟩
  else none

/-- Begin a character: what is shown at once, and what is still to be read. -/
def start (b : Nat) : List Char × Option Pending :=
  if b < 0x80 then ([Char.ofNat b], none)
  else
    match lead b with
    | some pending => ([], some pending)
    | none => ([replacement], none)

/-- Read one byte: the characters it completes, and what is still to be read. -/
def advance (pending : Option Pending) (b : Nat) : List Char × Option Pending :=
  match pending with
  | none => start b
  | some p =>
      if p.low ≤ b ∧ b ≤ p.high then
        let value := p.value * 64 + b % 64
        match p.more with
        | 0 => ([Char.ofNat value], none)
        | more + 1 => ([], some ⟨0x80, 0xbf, more, value⟩)
      else
        let (shown, next) := start b
        (replacement :: shown, next)

/-- The characters of the bytes that follow a pending character. -/
def decodeFrom : Option Pending → List UInt8 → List Char
  | none, [] => []
  | some _, [] => [replacement]
  | pending, b :: rest =>
      let (shown, next) := advance pending b.toNat
      shown ++ decodeFrom next rest

/-- The text of the bytes, with replacements where they are not UTF-8. -/
def decodeLossy (bytes : List UInt8) : String :=
  String.ofList (decodeFrom none bytes)

example : decodeLossy [0x61, 0xe9, 0x62] = "a\uFFFDb" := by decide +kernel

example : decodeLossy [0xf0, 0x9f, 0x99, 0x82] = "🙂" := by decide +kernel

example : decodeLossy [0xf0, 0x9f, 0x99] = "\uFFFD" := by decide +kernel

example : decodeLossy [0xe0, 0x80, 0xc3] = "\uFFFD\uFFFD\uFFFD" := by decide +kernel

end LinkTags.Utf8
