import ByteTape.Path

/-!
# Files and where paths lead

A `FileSystem` says what there is below the root: regular files, directories, named pipes and
symbolic links.  `FileSystem.destination` gives the place to which a path leads from the
directory in which a program is started, and `FileSystem.status` the entry there.

A path is walked name by name, from the root if it begins with a slash.  Names such as `.` stay
where they are and `..` goes up, but only from a directory, so a path that ends in a slash leads
to no file.  At the root, `..` stays too.  A symbolic link is replaced by its target, which is
read in the directory that holds the link, and at most `FileSystem.maxLinks` links are followed,
so that a path through a loop of links leads nowhere.
-/

namespace ByteTape

/-! ### Files -/

/-- A regular file, of which only a first part may be stored: the rest of the file, up to its
size, is zero. -/
structure File where
  stored : Bytes
  size : Nat
  /-- Whether the file can be opened.  Its type and size can always be asked for. -/
  canOpen : Bool

namespace File

/-- The bytes of a file. -/
def bytes (file : File) : Bytes :=
  file.stored.take file.size ++ Array.replicate (file.size - file.stored.size) 0

/-- The file that is stored in full and can be opened. -/
def ofBytes (bytes : Bytes) : File :=
  ⟨bytes, bytes.size, true⟩

/-- Read a file from its beginning into a buffer.  This gives the buffer, with as many of its
first bytes replaced as the file has, and the number of these bytes. -/
def readInto (file : File) (buffer : Bytes) : Bytes × Nat :=
  let found := file.bytes.take buffer.size
  (found ++ buffer.drop found.size, found.size)

/-- A file has as many bytes as its size says. -/
@[simp]
theorem size_bytes (file : File) :
  file.bytes.size = file.size
  := by
  simp only [bytes, Array.take_eq_extract, Array.size_append, Array.size_extract,
    Array.size_replicate]
  omega

/-- A file that is stored in full has the bytes that are stored. -/
@[simp]
theorem bytes_ofBytes (bytes : Bytes) :
  (ofBytes bytes).bytes = bytes
  := by
  simp [ofBytes, File.bytes]

/-- A buffer of the size of the file takes all its bytes. -/
theorem readInto_of_size_eq {file : File} {buffer : Bytes} (room : buffer.size = file.size) :
  file.readInto buffer = (file.bytes, file.size)
  := by
  have all : file.bytes.take buffer.size = file.bytes := by
    rw [room, ← size_bytes, Array.take_eq_extract, Array.extract_size]
  have none : buffer.drop file.size = #[] := by
    rw [← room, Array.drop_eq_extract, Array.extract_size_left]
  simp [readInto, all, none]

end File

/-! ### Where everything is -/

/-- What a name in a directory can stand for. -/
inductive Entry where
  | file (file : File)
  | directory
  | pipe
  | link (target : Bytes)

/-- The place of an entry below the root: its name, then the names of the directories that hold
it, innermost first.  The root is at the empty place. -/
abbrev Location : Type := List Name

/-- The directory from which a path is walked that is read in a given directory. -/
def Path.origin (path : Bytes) (directory : Location) : Location :=
  if isAbsolute path then [] else directory

/-- What there is below the root. -/
structure FileSystem where
  /-- The entries with their places, the latest ones first. -/
  entries : List (Location × Entry)
  /-- The directory in which a program is started. -/
  start : Location

/-- The place to which a path leads when all links have been followed. -/
inductive Destination where
  /-- There is an entry. -/
  | taken (location : Location) (entry : Entry)
  /-- There is nothing, in a directory that exists. -/
  | vacant (location : Location)

namespace FileSystem

/-- A root with nothing below it, where a program is started. -/
def empty : FileSystem :=
  ⟨[], []⟩

/-- The entry at a location. -/
def entryAt? (files : FileSystem) (location : Location) : Option Entry :=
  (files.entries.find? (·.1 = location)).map Prod.snd

/-- How far the names of a path lead without following a link. -/
inductive Walk where
  /-- All the way. -/
  | arrived (destination : Destination)
  /-- To a link in a directory, with some names left to go. -/
  | atLink (directory : Location) (target : Bytes) (rest : List Name)
  /-- Nowhere. -/
  | lost (error : SystemError)

/-- Walk from a directory along some names, up to the first link. -/
def walk (files : FileSystem) : Location → List Name → Walk
  | directory, [] => .arrived (.taken directory .directory)
  | directory, name :: rest =>
    if name.isHere then files.walk directory rest
    else if name.isParent then files.walk directory.tail rest
    else if !name.isProper then .lost .nameTooLong
    else
      match files.entryAt? (name :: directory) with
      | none => if rest = [] then .arrived (.vacant (name :: directory)) else .lost .missing
      | some .directory => files.walk (name :: directory) rest
      | some (.link target) => .atLink directory target rest
      | some entry =>
        if rest = [] then .arrived (.taken (name :: directory) entry) else .lost .notDirectory

/-- Walk from a directory along some names and follow at most `links` links. -/
def follow (files : FileSystem) :
    (links : Nat) → Location → List Name → Except SystemError Destination
  | 0, directory, names =>
    match files.walk directory names with
    | .arrived destination => .ok destination
    | .atLink .. => .error .tooManyLinks
    | .lost error => .error error
  | links + 1, directory, names =>
    match files.walk directory names with
    | .arrived destination => .ok destination
    | .atLink directory target rest =>
      (Path.names target).bind fun names =>
        files.follow links (Path.origin target directory) (names ++ rest)
    | .lost error => .error error

/-- How many links are followed on the way along one path. -/
def maxLinks : Nat := 40

/-- The place to which a path leads. -/
def destination (files : FileSystem) (path : Bytes) : Except SystemError Destination :=
  (Path.names path).bind (files.follow maxLinks (Path.origin path files.start))

/-- The entry to which a path leads. -/
def status (files : FileSystem) (path : Bytes) : Except SystemError Entry :=
  match files.destination path with
  | .ok (.taken _ entry) => .ok entry
  | .ok (.vacant _) => .error .missing
  | .error error => .error error

end FileSystem

end ByteTape
