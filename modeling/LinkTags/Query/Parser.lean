import LinkTags.Query.Token

/-!
# Reading queries

Terms are read one after the other. Where a word opens a group, the terms in the group
are read before the next one, and a group is read up to the word that closes it. The
first token that does not fit decides the error; that the tokens are over in a group, or
that there is not one term outside of all groups, is noticed only at the end.

## Implementation notes

Whether a token is a word of the language is decided after its quotes are gone, so
quoting does not turn `AND` into a name. A leading backslash does, and is removed.

What reading gives says which tokens are left, and that the tokens read ended with these.
So reading can go on with them, and comes to an end.
-/

namespace LinkTags

/-- What a token is in the language of queries. -/
inductive Lexeme where
  | opener (operator : Operator)
  | closer
  | word (name : String)
  deriving DecidableEq, Repr

/-- A word without one leading backslash, if it has any. -/
def unescape (word : String) : String :=
  match word.toList with
  | [] => word
  | c :: rest => if c = escape then String.ofList rest else word

/-- The lexeme that the text of a token is. -/
def Lexeme.ofText (text : String) : Lexeme :=
  if text = LinkTags.closer then .closer
  else if text = Operator.all.word then .opener .all
  else if text = Operator.any.word then .opener .any
  else .word (unescape text)

/-- A term that has been read, and the offset where it begins. -/
structure Term where
  offset : Nat
  query : Query

/-- The word that opened a group: its operator, and its offset. -/
structure Opening where
  operator : Operator
  offset : Nat

/-- What was read from the front of tokens, and the tokens that are left. -/
structure Front (tokens : List Token) (α : Type) where
  read : α
  left : List Token
  left_suffix : left <:+ tokens

/-- What was read from the end of tokens was read from these. -/
def Front.within {α : Type} {tokens more : List Token} (front : Front tokens α)
    (h : tokens <:+ more) : Front more α :=
  ⟨front.read, front.left, front.left_suffix.trans h⟩

namespace Query

mutual

/-- The terms up to the word that closes their group, or up to the end outside of all
groups. Those that were read before are given with the last one first. -/
def readTerms (group : Option Opening) (before : List Term) (tokens : List Token) :
    Except QueryError (Front tokens (List Term)) :=
  match tokens with
  | [] =>
      match group with
      | none => .ok ⟨before.reverse, [], List.suffix_rfl⟩
      | some opening => .error (.unterminated opening.operator opening.offset)
  | token :: rest =>
      match Lexeme.ofText token.text with
      | .closer =>
          match group with
          | none => .error (.unexpectedCloser token.offset)
          | some opening =>
              if before.isEmpty then .error (.emptyGroup opening.operator opening.offset)
              else .ok ⟨before.reverse, rest, List.suffix_cons token rest⟩
      | .opener operator =>
          match readGroup ⟨operator, token.offset⟩ rest with
          | .error e => .error e
          | .ok inside =>
              have := inside.left_suffix.length_le
              match readTerms group (⟨token.offset, inside.read⟩ :: before) inside.left with
              | .error e => .error e
              | .ok front =>
                  .ok (front.within (inside.left_suffix.trans (List.suffix_cons token rest)))
      | .word name =>
          match readTerms group (⟨token.offset, .dir name⟩ :: before) rest with
          | .error e => .error e
          | .ok front => .ok (front.within (List.suffix_cons token rest))
termination_by (tokens.length, 0)

/-- The group that a word has opened. -/
def readGroup (opening : Opening) (tokens : List Token) :
    Except QueryError (Front tokens Query) :=
  match readTerms (some opening) [] tokens with
  | .error e => .error e
  | .ok front =>
      .ok ⟨.group opening.operator (front.read.map Term.query), front.left, front.left_suffix⟩
termination_by (tokens.length, 1)

end

/-- The query of the terms outside of all groups, of which there has to be one. -/
def ofTerms : List Term → Except QueryError Query
  | [] => .error .empty
  | [term] => .ok term.query
  | _ :: second :: rest => .error (.multipleTerms (rest.length + 2) second.offset)

/-- The query of a list of tokens. -/
def ofTokens (tokens : List Token) : Except QueryError Query :=
  match readTerms none [] tokens with
  | .error e => .error e
  | .ok front => ofTerms front.read

/-- The query that a text spells. -/
def parse (text : String) : Except QueryError Query :=
  match Token.tokenize text with
  | .error e => .error e
  | .ok tokens => ofTokens tokens

end Query

end LinkTags
