import LinkTags.Query.Basic
import LinkTags.Text.Blank

/-!
# Writing queries

A query is written in the language it is read from. A name gets a backslash if it
would otherwise be read as a word of the language or lose its first character, and
quotes if it is empty or holds white space. A name with a quote in it cannot be
written so that it is read back.

## Implementation notes

`written` says what the text is, and `print` builds it from its end (`print_eq`), so
that deep queries are not copied level by level.
-/

namespace LinkTags

/-- The words that are not names. -/
def reservedWords : List String := [Operator.all.word, Operator.any.word, closer]

/-- A name behind a backslash, if it needs one. -/
def escaped (name : String) : List Char :=
  if name ∈ reservedWords ∨ name.toList.head? = some escape then escape :: name.toList
  else name.toList

/-- The characters of a name in the text of a query. -/
def writtenName (name : String) : List Char :=
  let word := escaped name
  if word = [] ∨ word.any isBlank = true then quote :: (word ++ [quote]) else word

namespace Query

mutual

/-- The characters of the text of a query. -/
def written : Query → List Char
  | .dir name => writtenName name
  | .group operator terms =>
      operator.word.toList ++ ' ' :: (writtenAll terms ++ ' ' :: closer.toList)

/-- The texts of several queries with a space between each two. -/
def writtenAll : List Query → List Char
  | [] => []
  | term :: rest => written term ++ writtenRest rest

/-- The texts of several queries, each after a space. -/
def writtenRest : List Query → List Char
  | [] => []
  | term :: rest => ' ' :: (written term ++ writtenRest rest)

end

mutual

/-- The text of a query before further characters. -/
def writtenOnto (tail : List Char) : Query → List Char
  | .dir name => writtenName name ++ tail
  | .group operator terms =>
      operator.word.toList ++ ' ' :: writtenAllOnto (' ' :: (closer.toList ++ tail)) terms

/-- The texts of several queries before further characters. -/
def writtenAllOnto (tail : List Char) : List Query → List Char
  | [] => tail
  | term :: rest => writtenOnto (writtenRestOnto tail rest) term

/-- The texts of several queries, each after a space, before further characters. -/
def writtenRestOnto (tail : List Char) : List Query → List Char
  | [] => tail
  | term :: rest => ' ' :: writtenOnto (writtenRestOnto tail rest) term

end

mutual

theorem writtenOnto_eq (tail : List Char) (query : Query) :
    writtenOnto tail query = written query ++ tail := by
  match query with
  | .dir name => simp only [writtenOnto, written]
  | .group operator terms =>
      simp only [writtenOnto, written, writtenAllOnto_eq, List.append_assoc, List.cons_append]

theorem writtenAllOnto_eq (tail : List Char) (queries : List Query) :
    writtenAllOnto tail queries = writtenAll queries ++ tail := by
  match queries with
  | [] => simp only [writtenAllOnto, writtenAll, List.nil_append]
  | term :: rest =>
      simp only [writtenAllOnto, writtenAll, writtenOnto_eq, writtenRestOnto_eq,
        List.append_assoc]

theorem writtenRestOnto_eq (tail : List Char) (queries : List Query) :
    writtenRestOnto tail queries = writtenRest queries ++ tail := by
  match queries with
  | [] => simp only [writtenRestOnto, writtenRest, List.nil_append]
  | term :: rest =>
      simp only [writtenRestOnto, writtenRest, writtenOnto_eq, writtenRestOnto_eq,
        List.append_assoc, List.cons_append]

end

/-- The text of a query. -/
def print (query : Query) : String :=
  String.ofList (writtenOnto [] query)

theorem print_eq (query : Query) : query.print = String.ofList query.written := by
  rw [print, writtenOnto_eq, List.append_nil]

end Query

end LinkTags
