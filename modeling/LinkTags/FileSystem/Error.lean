/-!
# Errors of a file system

The causes for which an operation on paths is refused, and the words for each.
-/

namespace LinkTags

/-- Why a file system refuses an operation. -/
inductive FileError where
  | notPermitted
  | notFound
  | alreadyExists
  | notADirectory
  | isADirectory
  | invalidArgument
  | nameTooLong
  | notEmpty
  | tooManyLinks
  | nulByte
  deriving DecidableEq, Repr

namespace FileError

/-- The words for an error, with the number that the system gives it. -/
def message : FileError → String
  | notPermitted => "Operation not permitted (os error 1)"
  | notFound => "No such file or directory (os error 2)"
  | alreadyExists => "File exists (os error 17)"
  | notADirectory => "Not a directory (os error 20)"
  | isADirectory => "Is a directory (os error 21)"
  | invalidArgument => "Invalid argument (os error 22)"
  | nameTooLong => "File name too long (os error 36)"
  | notEmpty => "Directory not empty (os error 39)"
  | tooManyLinks => "Too many levels of symbolic links (os error 40)"
  | nulByte => "file name contained an unexpected NUL byte"

end FileError

end LinkTags
