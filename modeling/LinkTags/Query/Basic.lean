/-!
# Queries

A query is a tree. A leaf names a directory and stands for the files in it; a group
combines what its terms stand for, as their common part or as their union. The
words `AND` and `OR` open a group in the text of a query, and `)` closes it.
-/

namespace LinkTags

/-- How a group combines its terms. -/
inductive Operator where
  | all
  | any
  deriving DecidableEq, Repr

/-- The word that opens a group. -/
def Operator.word : Operator → String
  | all => "AND"
  | any => "OR"

/-- The word that closes a group. -/
def closer : String := ")"

/-- The character between which text is taken as it is. -/
def quote : Char := Char.ofNat 0x27

/-- The character that keeps a word from being read as a word of the language. -/
def escape : Char := '\\'

/-- A query. -/
inductive Query where
  | dir (name : String)
  | group (operator : Operator) (terms : List Query)

namespace Query

mutual

/-- Equality of queries is decided term by term. -/
def decEq : (a b : Query) → Decidable (a = b)
  | .dir a, .dir b =>
      if h : a = b then .isTrue (h ▸ rfl) else .isFalse fun e => h (Query.dir.inj e)
  | .group o as, .group p bs =>
      if h : o = p then
        match decEqAll as bs with
        | .isTrue hs => .isTrue (h ▸ hs ▸ rfl)
        | .isFalse hs => .isFalse fun e => hs (Query.group.inj e).2
      else .isFalse fun e => h (Query.group.inj e).1
  | .dir _, .group .. => .isFalse nofun
  | .group .., .dir _ => .isFalse nofun

/-- Equality of lists of queries. -/
def decEqAll : (as bs : List Query) → Decidable (as = bs)
  | [], [] => .isTrue rfl
  | a :: as, b :: bs =>
      match decEq a b with
      | .isTrue h =>
          match decEqAll as bs with
          | .isTrue hs => .isTrue (h ▸ hs ▸ rfl)
          | .isFalse hs => .isFalse fun e => hs (List.cons.inj e).2
      | .isFalse h => .isFalse fun e => h (List.cons.inj e).1
  | [], _ :: _ => .isFalse nofun
  | _ :: _, [] => .isFalse nofun

end

instance : DecidableEq Query := decEq

mutual

/-- The names at the leaves, from left to right. -/
def leaves : Query → List String
  | .dir name => [name]
  | .group _ terms => leavesAll terms

/-- The names at the leaves of several queries, from left to right. -/
def leavesAll : List Query → List String
  | [] => []
  | term :: rest => leaves term ++ leavesAll rest

end

end Query

end LinkTags
