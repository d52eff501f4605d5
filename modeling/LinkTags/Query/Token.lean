import LinkTags.Query.Error
import LinkTags.Text.Blank

/-!
# Tokens

The text of a query is split at white space that is not between quotes. The quotes
themselves are dropped, so that quoted and bare text that touch make one token, and
a pair of quotes with nothing around it makes an empty one.
-/

namespace LinkTags

/-- A word of a query without its quotes, and the offset in bytes where it begins. -/
structure Token where
  text : String
  offset : Nat
  deriving DecidableEq, Repr

namespace Token

/-- A token that is being read: where it began, and its characters so far, the last
one first. -/
structure Partial where
  offset : Nat
  reversed : List Char

/-- The token read, which has ended. -/
def Partial.token (word : Partial) : Token :=
  ⟨String.ofList word.reversed.reverse, word.offset⟩

/-- Go on with the token being read, or begin one at this offset. -/
def Partial.reach (word : Option Partial) (offset : Nat) : Partial :=
  word.getD ⟨offset, []⟩

/-- Read one more character into a token. -/
def Partial.push (word : Partial) (c : Char) : Partial :=
  { word with reversed := c :: word.reversed }

/-- The tokens of the characters from an offset on. `opened` is the offset of the
quote that is open there, and `word` the token that is being read. -/
def scan (offset : Nat) (opened : Option Nat) (word : Option Partial) :
    List Char → Except QueryError (List Token)
  | [] =>
      match opened with
      | some start => .error (.unclosedQuote start)
      | none => .ok (word.map Partial.token).toList
  | c :: rest =>
      let next := offset + c.utf8Size
      let here := Partial.reach word offset
      if c = quote then
        match opened with
        | none => scan next (some offset) (some here) rest
        | some _ => scan next none (some here) rest
      else if opened = none ∧ isBlank c = true then
        match scan next none none rest with
        | .error e => .error e
        | .ok tokens => .ok ((word.map Partial.token).toList ++ tokens)
      else scan next opened (some (here.push c)) rest

/-- The tokens of a text. -/
def tokenize (text : String) : Except QueryError (List Token) :=
  scan 0 none none text.toList

end Token

end LinkTags
