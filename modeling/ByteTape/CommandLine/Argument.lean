import ByteTape.Bytes

/-!
# The arguments of the command line

Arguments come in groups: a flag, a flag together with its value, or a source file.
`Argument.ofList` divides a list of arguments into groups from left to right.  Every argument
that begins with a hyphen is a flag, unless it is the value of the flag before it.
-/

namespace ByteTape

namespace CommandLine

/-- A group of arguments. -/
inductive Argument where
  /-- Print what is being done. -/
  | verbose
  /-- Print the program and do not run it. -/
  | printOnly
  /-- Print how the program is used. -/
  | help
  /-- The value chosen for the end of the input. -/
  | eof (value : Bytes)
  /-- The value chosen for the step limit. -/
  | limit (value : Bytes)
  /-- A flag that lacks its value. -/
  | valueless (flag : Bytes)
  /-- A flag that there is not. -/
  | unknown (flag : Bytes)
  /-- A source file. -/
  | source (path : Bytes)
  deriving DecidableEq

namespace Argument

/-- The byte with which flags begin. -/
def hyphen : UInt8 := '-'.toUInt8

/-- The group formed by an argument that takes no value. -/
def ofSingle (argument : Bytes) : Argument :=
  if argument[0]? ≠ some hyphen then source argument
  else if argument = Bytes.ofString "-v" then verbose
  else if argument = Bytes.ofString "-p" then printOnly
  else if argument = Bytes.ofString "-h" then help
  else unknown argument

/-- The way in which a flag uses its value, for the flags that take one. -/
def withValue? (flag : Bytes) : Option (Bytes → Argument) :=
  if flag = Bytes.ofString "-e" then some eof
  else if flag = Bytes.ofString "-l" then some limit
  else none

/-- The groups of a list of arguments. -/
def ofList : List Bytes → List Argument
  | [] => []
  | [argument] =>
    match withValue? argument with
    | some _ => [valueless argument]
    | none => [ofSingle argument]
  | argument :: next :: rest =>
    match withValue? argument with
    | some group => group next :: ofList rest
    | none => ofSingle argument :: ofList (next :: rest)

end Argument

end CommandLine

end ByteTape
