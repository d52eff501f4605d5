import LinkTags.FileSystem.Tree
import LinkTags.Query.Basic

/-!
# Searching

A query is evaluated to matches, each a file with a path to it, no file twice. A
leaf gives the regular files directly in its directory in the order of their names.
A group of terms that all have to hold keeps the matches of its first term, and a
group of terms of which any may hold keeps the first match of each file. Every leaf
is read, from left to right, and the first that cannot be read fails the search.
-/

namespace LinkTags

/-- A file that matches, and a path to it. -/
structure Match where
  id : FileId
  path : Path
  deriving DecidableEq

namespace Match

/-- The matches without those whose file has come before. -/
def distinct : List Match → List Match
  | [] => []
  | first :: rest => first :: (distinct rest).filter fun other => other.id ≠ first.id

/-- Some match is of the file. -/
def covers (found : List Match) (id : FileId) : Bool :=
  found.any fun other => other.id = id

/-- The matches of the first list whose file every other list has too. -/
def common : List (List Match) → List Match
  | [] => []
  | first :: others => first.filter fun item => others.all fun found => covers found item.id

/-- The matches of all lists, each file by its first match. -/
def union (found : List (List Match)) : List Match :=
  distinct found.flatten

end Match

/-- The matches of a group, from those of its terms. -/
def Operator.combine : Operator → List (List Match) → List Match
  | all => Match.common
  | any => Match.union

/-- Why a search fails: the path of the leaf, and what is wrong with it. -/
inductive SearchError where
  | notFound (path : Path)
  | notADirectory (path : Path)
  | filesystem (path : Path) (cause : FileError)
  deriving DecidableEq

namespace SearchError

/-- The words for why a search fails. -/
def message : SearchError → String
  | notFound path => s!"`{path.display}` does not exist"
  | notADirectory path => s!"`{path.display}` is not a directory"
  | filesystem path cause => s!"Failed to read `{path.display}`: {cause.message}"

/-- The error of the file system behind a failed search. -/
def cause? : SearchError → Option FileError
  | filesystem _ cause => some cause
  | _ => none

end SearchError

/-- The regular files among the entries of a directory, with their paths from it. -/
def regularFiles (path : Path) (entries : List Entry) : List Match :=
  entries.filterMap fun entry =>
    match entry.node with
    | .file inode =>
        if inode.kind = .regular then some ⟨.file inode, path.join entry.name.path⟩ else none
    | .directory => none

namespace Context

/-- The matches of a leaf that names a directory by its path. -/
def matchesIn (context : Context) (path : Path) : Except SearchError (List Match) :=
  match context.readDirectory path with
  | .ok entries => .ok (Match.distinct (regularFiles path entries))
  | .error .notFound => .error (.notFound path)
  | .error e =>
      if context.leads path ∧ ¬context.isDirectory path then .error (.notADirectory path)
      else .error (.filesystem path e)

mutual

/-- The matches of a query whose names are made paths by `resolve`. -/
def evaluate (context : Context) (resolve : String → Path) :
    Query → Except SearchError (List Match)
  | .dir name => context.matchesIn (resolve name)
  | .group operator terms =>
      match evaluateAll context resolve terms with
      | .error e => .error e
      | .ok found => .ok (operator.combine found)

/-- The matches of each of several queries. -/
def evaluateAll (context : Context) (resolve : String → Path) :
    List Query → Except SearchError (List (List Match))
  | [] => .ok []
  | term :: rest =>
      match evaluate context resolve term with
      | .error e => .error e
      | .ok found =>
          match evaluateAll context resolve rest with
          | .error e => .error e
          | .ok others => .ok (found :: others)

end

/-- One path for each file that matches a query. -/
def search (context : Context) (resolve : String → Path) (query : Query) :
    Except SearchError (List Path) :=
  match context.evaluate resolve query with
  | .error e => .error e
  | .ok found => .ok (found.map Match.path)

end Context

end LinkTags
