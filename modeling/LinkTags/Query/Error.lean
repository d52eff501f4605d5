import LinkTags.Query.Basic

/-!
# Errors in queries

What can be wrong with the text of a query. Every offset counts the bytes of the
text before the place.
-/

namespace LinkTags

/-- What is wrong with the text of a query. -/
inductive QueryError where
  | empty
  | unclosedQuote (offset : Nat)
  | unexpectedCloser (offset : Nat)
  | unterminated (operator : Operator) (offset : Nat)
  | emptyGroup (operator : Operator) (offset : Nat)
  | multipleTerms (count offset : Nat)
  deriving DecidableEq, Repr

/-- The words for what is wrong. -/
def QueryError.message : QueryError → String
  | empty => "Query is empty"
  | unclosedQuote offset => s!"Quote at {offset} is never closed"
  | unexpectedCloser offset =>
      s!"`{closer}` at {offset} does not close an `{Operator.all.word}` or `{Operator.any.word}`"
  | unterminated operator offset =>
      s!"`{operator.word}` at {offset} is never closed by `{closer}`"
  | emptyGroup operator offset => s!"`{operator.word}` at {offset} has no terms"
  | multipleTerms count offset =>
      s!"Query has {count} terms starting at {offset}. " ++
        s!"Combine them with `{Operator.all.word}` or `{Operator.any.word}`."

end LinkTags
