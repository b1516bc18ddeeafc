/-!
# What the system refuses to answer

The system is asked what a path leads to and how big it is.  `SystemError` says why there may be
no answer, and `SystemError.message` words it.
-/

namespace ByteTape

/-- Why the system gives no answer about a path. -/
inductive SystemError where
  /-- A name is not in use. -/
  | missing
  /-- A name on the way is not that of a directory. -/
  | notDirectory
  /-- The path leads to a directory, which has no size. -/
  | isDirectory
  /-- The path leads to something else that has no size. -/
  | notSupported
  /-- The path, or a name along it, is too long. -/
  | nameTooLong
  /-- There are too many links on the way. -/
  | tooManyLinks
  deriving DecidableEq, Repr

/-- The reason in words. -/
def SystemError.message : SystemError → String
  | missing => "No such file or directory"
  | notDirectory => "Not a directory"
  | isDirectory => "Is a directory"
  | notSupported => "Operation not supported"
  | nameTooLong => "File name too long"
  | tooManyLinks => "Too many levels of symbolic links"

end ByteTape
