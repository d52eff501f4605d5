import LinkTags.Query.Parser

/-!
# Reading with a stack

A query is read by going into each group that is opened and coming back when it is closed. The
same can be done in one pass over the tokens, with the groups that are open kept on a stack,
each with the terms that were read before it at the level outside. Going into a group and
coming back is then to push the group and to read on until it is taken off the stack
(`Query.conclude_eq_leave`), so both ways of reading end alike (`Query.ofTokens_eq_conclude`).
-/

namespace LinkTags

/-- A group that is open: the word that opened it, and the terms before it at the level
outside, the last one first. -/
structure OpenGroup extends Opening where
  outside : List Term

/-- How far reading has come: the open groups, the innermost first, and the terms
at the innermost level, the last one first. -/
structure Reading where
  groups : List OpenGroup
  terms : List Term

namespace Reading

/-- Nothing has been read. -/
def start : Reading := ⟨[], []⟩

/-- A group is closed by its terms becoming a term at the level outside. -/
def close (group : OpenGroup) (terms : List Term) : Term :=
  ⟨group.offset, .group group.operator (terms.reverse.map Term.query)⟩

/-- Read one token. -/
def step (reading : Reading) (token : Token) : Except QueryError Reading :=
  match Lexeme.ofText token.text with
  | .word name => .ok { reading with terms := ⟨token.offset, .dir name⟩ :: reading.terms }
  | .opener operator => .ok ⟨⟨⟨operator, token.offset⟩, reading.terms⟩ :: reading.groups, []⟩
  | .closer =>
      match reading.groups with
      | [] => .error (.unexpectedCloser token.offset)
      | group :: outer =>
          if reading.terms.isEmpty then .error (.emptyGroup group.operator group.offset)
          else .ok ⟨outer, close group reading.terms :: group.outside⟩

/-- Read all tokens. -/
def run (reading : Reading) : List Token → Except QueryError Reading
  | [] => .ok reading
  | token :: rest =>
      match reading.step token with
      | .error e => .error e
      | .ok next => next.run rest

/-- The query that has been read when the tokens are over. -/
def finish (reading : Reading) : Except QueryError Query :=
  match reading.groups with
  | group :: _ => .error (.unterminated group.operator group.offset)
  | [] => Query.ofTerms reading.terms.reverse

/-- Read all tokens, and say what query that was. -/
def conclude (reading : Reading) (tokens : List Token) : Except QueryError Query :=
  match reading.run tokens with
  | .error e => .error e
  | .ok next => next.finish

theorem conclude_nil (reading : Reading) : reading.conclude [] = reading.finish := rfl

theorem conclude_cons (reading : Reading) (token : Token) (rest : List Token) :
    reading.conclude (token :: rest) =
      match reading.step token with
      | .error e => .error e
      | .ok next => next.conclude rest := by
  rw [conclude, run]
  cases reading.step token with
  | error e => rfl
  | ok next => rfl

/-- The terms of the innermost level are over, and these tokens are left: the innermost group
becomes a term at the level outside, or if no group is open, reading is over. -/
def leave (groups : List OpenGroup) (terms : List Term) (left : List Token) :
    Except QueryError Query :=
  match groups with
  | [] => finish ⟨[], terms.reverse⟩
  | group :: outer => conclude ⟨outer, close group terms.reverse :: group.outside⟩ left

end Reading

namespace Query

mutual

/-- To read the terms of a level is to read on, and then to leave the level. -/
theorem conclude_eq_leave (groups : List OpenGroup) (before : List Term) (tokens : List Token) :
    (⟨groups, before⟩ : Reading).conclude tokens =
      match readTerms (groups.head?.map OpenGroup.toOpening) before tokens with
      | .error e => .error e
      | .ok front => Reading.leave groups front.read front.left := by
  match tokens with
  | [] =>
      cases groups with
      | nil => simp [readTerms, Reading.conclude_nil, Reading.leave]
      | cons group outer => simp [readTerms, Reading.conclude_nil, Reading.finish]
  | token :: rest =>
      rw [Reading.conclude_cons, Reading.step, readTerms.eq_def]
      dsimp only
      cases Lexeme.ofText token.text with
      | word name =>
          dsimp only
          rw [conclude_eq_leave groups _ rest]
          cases readTerms (groups.head?.map OpenGroup.toOpening) _ rest with
          | error e => rfl
          | ok front => rfl
      | opener operator =>
          dsimp only
          rw [conclude_eq_readGroup ⟨operator, token.offset⟩ ⟨groups, before⟩ rest]
          cases readGroup ⟨operator, token.offset⟩ rest with
          | error e => rfl
          | ok inside =>
              have := inside.left_suffix.length_le
              dsimp only
              rw [conclude_eq_leave groups _ inside.left]
              cases readTerms (groups.head?.map OpenGroup.toOpening) _ inside.left with
              | error e => rfl
              | ok front => rfl
      | closer =>
          cases groups with
          | nil => rfl
          | cons group outer =>
              cases before with
              | nil => rfl
              | cons term terms => simp [Reading.leave]
termination_by (tokens.length, 0)

/-- To read a group is to read on with the group open, up to where it is closed. -/
theorem conclude_eq_readGroup (opening : Opening) (reading : Reading) (tokens : List Token) :
    Reading.conclude ⟨⟨opening, reading.terms⟩ :: reading.groups, []⟩ tokens =
      match readGroup opening tokens with
      | .error e => .error e
      | .ok inside =>
          Reading.conclude ⟨reading.groups, ⟨opening.offset, inside.read⟩ :: reading.terms⟩
            inside.left := by
  rw [conclude_eq_leave, readGroup]
  simp only [List.head?_cons, Option.map_some]
  cases readTerms (some opening) [] tokens with
  | error e => rfl
  | ok front => simp [Reading.leave, Reading.close]
termination_by (tokens.length, 1)

end

/-- Going into the groups of a query and keeping them on a stack come to the same. -/
theorem ofTokens_eq_conclude (tokens : List Token) :
    ofTokens tokens = Reading.start.conclude tokens := by
  rw [Reading.start, conclude_eq_leave, ofTokens]
  dsimp only [List.head?_nil, Option.map_none]
  cases readTerms none [] tokens with
  | error e => rfl
  | ok front => simp [Reading.leave, Reading.finish]

theorem parse_eq_conclude {text : String} {tokens : List Token}
    (h : Token.tokenize text = .ok tokens) : parse text = Reading.start.conclude tokens := by
  rw [parse, h, ← ofTokens_eq_conclude]

end Query

end LinkTags
