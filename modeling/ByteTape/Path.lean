import ByteTape.Bytes
import ByteTape.SystemError

/-!
# Paths

A path is a byte string that leads to a file, name by name, with slashes between the names.
`Path.names` gives the names along a path, unless the path is empty or too long.  An empty name
arises from a slash at either end of a path or from two slashes in a row.
-/

namespace ByteTape

/-- A name in a directory. -/
abbrev Name : Type := Bytes

namespace Name

/-- How long a name may be. -/
def maxSize : Nat := 255

/-- Whether a name stands for the directory in which it is read. -/
def isHere (name : Name) : Bool :=
  name = #[] || name = Bytes.ofString "."

/-- Whether a name stands for the directory above. -/
def isParent (name : Name) : Bool :=
  name = Bytes.ofString ".."

/-- Whether a name can be given to an entry of a directory. -/
def isProper (name : Name) : Bool :=
  !name.isHere && !name.isParent && name.size ≤ maxSize

end Name

namespace Path

/-- The byte that separates the names of a path. -/
def slash : UInt8 := '/'.toUInt8

/-- How long a path may be. -/
def maxSize : Nat := 4095

/-- Put a byte in front of the first of some names. -/
def extendFirst (byte : UInt8) : List (List UInt8) → List (List UInt8)
  | [] => [[byte]]
  | first :: others => (byte :: first) :: others

/-- Split a list of bytes at every slash. -/
def split (bytes : List UInt8) : List (List UInt8) :=
  bytes.foldr (fun byte names => if byte = slash then [] :: names else extendFirst byte names) [[]]

/-- The part of a path before its first zero byte, which is where a path ends. -/
def visible (path : Bytes) : Bytes :=
  path.takeWhile (· ≠ 0)

/-- Whether a path begins with a slash, and so at the root wherever it is read. -/
def isAbsolute (path : Bytes) : Bool :=
  (visible path)[0]? = some slash

/-- The names along a path. -/
def names (path : Bytes) : Except SystemError (List Name) :=
  let path := visible path
  if path.isEmpty then .error .missing
  else if maxSize < path.size then .error .nameTooLong
  else .ok ((split path.toList).map List.toArray)

/-- The names along a path without the empty names at its end. -/
def withoutTrailing (names : List Name) : List Name :=
  (names.reverse.dropWhile (· = #[])).reverse

end Path

end ByteTape
