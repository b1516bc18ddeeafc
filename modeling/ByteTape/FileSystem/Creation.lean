import ByteTape.FileSystem.Basic

/-!
# Putting entries into a file system

`FileSystem.create` puts an entry at the place that a path names.  A regular file is written
wherever the path leads, through links too, and takes the place of a regular file that is
there.  Any other entry is new: its name must not be in use, not even by a link.  If the entry
cannot be put there, nothing happens.
-/

namespace ByteTape

namespace FileSystem

/-- Put an entry at a location. -/
def put (files : FileSystem) (location : Location) (entry : Entry) : FileSystem :=
  { files with entries := (location, entry) :: files.entries }

/-- The place for a regular file that is written to a path. -/
def placeToWrite? (files : FileSystem) (path : Bytes) : Option Location :=
  match files.destination path with
  | .ok (.vacant location) => some location
  | .ok (.taken location (.file _)) => some location
  | _ => none

/-- The place for a new entry, if the last of some names, which are walked from a directory, can
be given to one. -/
def placeForNew? (files : FileSystem) (directory : Location) (names : List Name) :
    Option Location :=
  match names.getLast?, files.follow maxLinks directory names.dropLast with
  | some name, .ok (.taken directory .directory) =>
    if name.isProper && (files.entryAt? (name :: directory)).isNone then some (name :: directory)
    else none
  | _, _ => none

/-- The place for an entry that is put where a path leads.  A slash at the end of the path is
allowed for a directory only, and a link must have a target. -/
def placeFor? (files : FileSystem) (path : Bytes) (entry : Entry) : Option Location :=
  match entry, Path.names path with
  | .file _, _ => files.placeToWrite? path
  | _, .error _ => none
  | .directory, .ok names =>
    files.placeForNew? (Path.origin path files.start) (Path.withoutTrailing names)
  | .pipe, .ok names => files.placeForNew? (Path.origin path files.start) names
  | .link target, .ok names =>
    match Path.names target with
    | .ok _ => files.placeForNew? (Path.origin path files.start) names
    | .error _ => none

/-- Put an entry where a path leads, if it can be put there. -/
def create (files : FileSystem) (path : Bytes) (entry : Entry) : FileSystem :=
  match files.placeFor? path entry with
  | some location => files.put location entry
  | none => files

end FileSystem

end ByteTape
