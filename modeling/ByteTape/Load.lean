import ByteTape.Decimal
import ByteTape.FileSystem.Basic

/-!
# Loading a source file

`FileSystem.load` gives the bytes of the file that a path leads to, all of them, or says why
there are none.  The system is asked for the type of the file, then for its size, and then to
open it, and each time the path is walked anew.  An open file is read into a buffer of that
size, of which what was not read is cut off.
-/

namespace ByteTape

/-- Why a source file was not loaded. -/
inductive LoadError where
  /-- The path does not lead to a regular file. -/
  | notRegular (path : Bytes)
  /-- The system does not tell the size of the file. -/
  | cannotStat (path : Bytes) (error : SystemError)
  /-- The file has more than `FileSystem.maxFileSize` bytes. -/
  | tooBig (size : Nat)
  /-- The file cannot be opened. -/
  | cannotOpen (path : Bytes)
  deriving DecidableEq, Repr

namespace LoadError

/-- A size in bytes as the nearest number of kilobytes, where an exact half is rounded
down. -/
def kilobytes (size : Nat) : Nat :=
  (size + 511) / 1024

/-- The reason in words, given how a path is shown in a text. -/
def message (shown : Bytes → Bytes) : LoadError → Bytes
  | notRegular path => shown path ++ Bytes.ofString " is not a regular file"
  | cannotStat path error =>
    Bytes.ofString "cannot stat " ++ shown path ++ Bytes.ofString (": " ++ error.message)
  | tooBig size =>
    Bytes.ofString ("file is too big (" ++ Decimal.ofNat (kilobytes size) ++ " KB)")
  | cannotOpen path => Bytes.ofString "cannot open " ++ shown path

end LoadError

namespace FileSystem

/-- The size in bytes above which no file is loaded. -/
def maxFileSize : Nat := 16 * 1024 * 1024

/-! ### What the system is asked -/

/-- Whether a path leads to a regular file. -/
def isRegular (files : FileSystem) (path : Bytes) : Bool :=
  match files.status path with
  | .ok (.file _) => true
  | _ => false

/-- The size of the regular file to which a path leads. -/
def size (files : FileSystem) (path : Bytes) : Except SystemError Nat :=
  match files.status path with
  | .ok (.file file) => .ok file.size
  | .ok .directory => .error .isDirectory
  | .ok _ => .error .notSupported
  | .error error => .error error

/-- The regular file to which a path leads, if it can be opened. -/
def open? (files : FileSystem) (path : Bytes) : Option File :=
  match files.status path with
  | .ok (.file file) => if file.canOpen then some file else none
  | _ => none

/-! ### Loading -/

/-- The bytes of the file that a path leads to. -/
def load (files : FileSystem) (path : Bytes) : Except LoadError Bytes :=
  if !files.isRegular path then .error (.notRegular path)
  else
    match files.size path with
    | .error error => .error (.cannotStat path error)
    | .ok size =>
      if maxFileSize < size then .error (.tooBig size)
      else
        match files.open? path with
        | none => .error (.cannotOpen path)
        | some file =>
          let (buffer, count) := file.readInto (Array.replicate size 0)
          .ok (buffer.take count)

end FileSystem

end ByteTape
