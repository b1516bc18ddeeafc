import ByteTape.Load
import ByteTape.Proofs.Decimal
import ByteTape.Proofs.FileSystem.Resolution

/-!
# What is loaded

A source file is loaded with all its bytes, or not at all, and `FileSystem.Loads` says when and why
not (`load_eq_iff`).  That there is a regular file settles what the system answers, so its size is
always told, and a buffer of that size is filled (`load_of_isFile`).  What is loaded depends only
on where the path leads, so that a link may be named instead of its target (`load_of_redirects`).
-/

namespace ByteTape

/-- The same reason, told of another path. -/
def LoadError.about (path : Bytes) : LoadError → LoadError
  | notRegular _ => notRegular path
  | cannotStat _ error => cannotStat path error
  | tooBig size => tooBig size
  | cannotOpen _ => cannotOpen path

namespace FileSystem

/-- `files.IsFile path file`: the path leads to a regular file. -/
def IsFile (files : FileSystem) (path : Bytes) (file : File) : Prop :=
  ∃ place, files.LeadsTo path place (.file file)

/-- `files.Loads path result`: what comes of loading a path.  Of the reasons for an error the first
one counts. -/
inductive Loads (files : FileSystem) (path : Bytes) : Except LoadError Bytes → Prop where
  /-- There is no regular file. -/
  | notRegular (missing : ∀ file, ¬ files.IsFile path file) :
    Loads files path (.error (.notRegular path))
  /-- The file is too big. -/
  | tooBig {file : File} (isFile : files.IsFile path file) (big : maxFileSize < file.size) :
    Loads files path (.error (.tooBig file.size))
  /-- The file cannot be opened. -/
  | cannotOpen {file : File} (isFile : files.IsFile path file) (small : file.size ≤ maxFileSize)
      (closed : file.canOpen = false) :
    Loads files path (.error (.cannotOpen path))
  /-- All bytes of the file are loaded. -/
  | loaded {file : File} (isFile : files.IsFile path file) (small : file.size ≤ maxFileSize)
      (opens : file.canOpen = true) :
    Loads files path (.ok file.bytes)

variable {files : FileSystem} {path other : Bytes} {file : File}
  {result : Except LoadError Bytes}

/-! ### What the system answers -/

theorem isFile_iff :
  files.IsFile path file ↔ files.status path = .ok (.file file)
  := status_eq_ok_iff.symm

/-- The system says that there is a regular file if the path leads to one. -/
theorem isRegular_iff :
  files.isRegular path ↔ ∃ file, files.IsFile path file
  := by
  simp only [isFile_iff, isRegular]
  split
  · rename_i file found
    simp [found]
  · rename_i other
    simpa using other

/-- The size of a regular file is always told. -/
theorem size_of_isFile (isFile : files.IsFile path file) :
  files.size path = .ok file.size
  := by
  rw [size, isFile_iff.mp isFile]

theorem open?_of_isFile (isFile : files.IsFile path file) :
  files.open? path = if file.canOpen then some file else none
  := by
  rw [open?, isFile_iff.mp isFile]

/-! ### Loading -/

/-- Where there is no regular file, nothing else is asked for. -/
theorem load_of_missing (missing : ∀ file, ¬ files.IsFile path file) :
  files.load path = .error (.notRegular path)
  := by
  have other : files.isRegular path = false := by
    rw [Bool.eq_false_iff, Ne, isRegular_iff]
    rintro ⟨file, isFile⟩
    apply missing file isFile
  rw [load, other]
  rfl

/-- A regular file is loaded unless it is too big or cannot be opened, and the buffer for it ends up
with its bytes. -/
theorem load_of_isFile (isFile : files.IsFile path file) :
  files.load path =
    if maxFileSize < file.size then .error (.tooBig file.size)
    else if file.canOpen then .ok file.bytes else .error (.cannotOpen path)
  := by
  have regular : files.isRegular path = true := isRegular_iff.mpr ⟨file, isFile⟩
  have filled : file.readInto (Array.replicate file.size 0) = (file.bytes, file.size) :=
    File.readInto_of_size_eq Array.size_replicate
  have whole : file.bytes.take file.size = file.bytes := by
    rw [← File.size_bytes, Array.take_eq_extract, Array.extract_size]
  simp only [load, regular, size_of_isFile isFile, open?_of_isFile isFile]
  cases file.canOpen with
  | true => simp [filled, whole]
  | false => simp

/-- Loading a path gives what it should. -/
theorem loads_load (files : FileSystem) (path : Bytes) :
  files.Loads path (files.load path)
  := by
  by_cases found : ∃ file, files.IsFile path file
  · obtain ⟨file, isFile⟩ := found
    rw [load_of_isFile isFile]
    split
    · rename_i big
      exact .tooBig isFile big
    · rename_i small
      split
      · rename_i opens
        exact .loaded isFile (Nat.not_lt.mp small) opens
      · rename_i closed
        exact .cannotOpen isFile (Nat.not_lt.mp small) (by simpa using closed)
  · have missing : ∀ file, ¬ files.IsFile path file := by simpa using found
    rw [load_of_missing missing]
    exact .notRegular missing

/-- Loading a path gives what it should, and nothing else. -/
theorem load_eq_iff :
  files.load path = result ↔ files.Loads path result
  := by
  constructor
  · rintro rfl
    apply loads_load
  · intro loads
    cases loads with
    | notRegular missing => apply load_of_missing missing
    | tooBig isFile big => rw [load_of_isFile isFile, if_pos big]
    | cannotOpen isFile small closed =>
      rw [load_of_isFile isFile, if_neg (Nat.not_lt.mpr small), closed]
      rfl
    | loaded isFile small opens =>
      rw [load_of_isFile isFile, if_neg (Nat.not_lt.mpr small), if_pos opens]

/-- What is loaded is not too big. -/
theorem size_le_of_load {source : Bytes} (loaded : files.load path = .ok source) :
  source.size ≤ maxFileSize
  := by
  cases load_eq_iff.mp loaded with
  | loaded isFile small opens => rwa [File.size_bytes]

/-- What is loaded depends on where the path leads, and so does the reason if nothing is. -/
theorem load_of_redirects {place : Location} {entry : Entry}
    (leadsTo : files.LeadsTo path place entry) (redirects : files.Redirects path other) :
  files.load other = (files.load path).mapError (.about other)
  := by
  have here := status_eq_ok_iff.mpr ⟨place, leadsTo⟩
  have there := status_eq_ok_iff.mpr ⟨place, leadsTo.of_redirects redirects⟩
  by_cases found : ∃ file, entry = .file file
  · obtain ⟨file, rfl⟩ := found
    rw [load_of_isFile (isFile_iff.mpr there), load_of_isFile (isFile_iff.mpr here)]
    split
    · rfl
    · split <;> rfl
  · have missing {path : Bytes} (leads : files.status path = .ok entry) :
        ∀ file, ¬ files.IsFile path file := by
      intro file isFile
      rw [isFile_iff, leads] at isFile
      exact found ⟨file, Except.ok.inj isFile⟩
    rw [load_of_missing (missing there), load_of_missing (missing here)]
    rfl

/-- Nothing is loaded where links go around in circles. -/
theorem load_of_circles {names rest : List Name} {n : Nat} {directory : Location} {name : Name}
    (spells : Path.Spells path names)
    (leads : files.Leads ⟨Path.origin path files.start, names⟩ n ⟨directory, name :: rest⟩)
    (circles : files.Circles directory name) :
  files.load path = .error (.notRegular path)
  := by
  apply load_of_missing
  intro file isFile
  have lost : files.follow maxLinks (Path.origin path files.start) names =
      if n ≤ maxLinks then files.follow (maxLinks - n) directory (name :: rest)
      else .error .tooManyLinks := leads.follow_eq maxLinks
  rw [circles.follow_eq, ite_self] at lost
  rw [isFile_iff, status, destination, Path.names_eq_ok_iff.mpr spells] at isFile
  simp [Except.bind, lost] at isFile

end FileSystem

/-! ### What is told of an error -/

namespace LoadError

/-- A size is given in kilobytes, to the nearest number of them, and an exact half is rounded
down. -/
theorem kilobytes_bounds (size : Nat) :
  1024 * kilobytes size < size + 512 ∧ size ≤ 1024 * kilobytes size + 512
  := by
  rw [kilobytes]
  omega

/-- How big a file is that is too big is told in decimal digits without needless zeros. -/
theorem exists_message_tooBig (size : Nat) (shown : Bytes → Bytes) :
  ∃ digits, (tooBig size).message shown =
      Bytes.ofString "file is too big (" ++ digits ++ Bytes.ofString " KB)" ∧
    Decimal.Spells digits.toList (kilobytes size) ∧
    (0 < kilobytes size → digits[0]? ≠ some '0'.toUInt8)
  := by
  use Bytes.ofString (Decimal.ofNat (kilobytes size))
  rw [← Array.getElem?_toList, ← List.head?_eq_getElem?, Decimal.toList_ofString_ofNat]
  and_intros
  · rw [message, Bytes.ofString_append, Bytes.ofString_append]
  · apply Decimal.spells_numeral
  · apply Decimal.head?_numeral_ne

end LoadError

namespace FileSystem

/-- A source file is loaded with all its bytes, or not at all.

* It is loaded exactly if the path leads, along links, to a regular file that is not too big and can
  be opened, and the error otherwise is the first one that applies.  It is never an error that the
  size of the file is not told.
* The error names the path, except that of a file that is too big its size is told in kilobytes,
  rounded to the nearest number of them, and down from an exact half.
* If the path leads anywhere, and there is a link on its way, then a path along the target of that
  link gives the same bytes or the same reason.
* If the path comes to a link that goes around in circles then there is no regular file. -/
theorem load_all_or_nothing (files : FileSystem) (path : Bytes) :
  (∀ result, files.load path = result ↔ files.Loads path result) ∧
  (∀ shown,
    LoadError.message shown (.notRegular path) =
      shown path ++ Bytes.ofString " is not a regular file" ∧
    (∀ size, ∃ kilobytes digits,
      LoadError.message shown (.tooBig size) =
        Bytes.ofString "file is too big (" ++ digits ++ Bytes.ofString " KB)" ∧
      Decimal.Spells digits.toList kilobytes ∧ (0 < kilobytes → digits[0]? ≠ some '0'.toUInt8) ∧
      1024 * kilobytes < size + 512 ∧ size ≤ 1024 * kilobytes + 512) ∧
    LoadError.message shown (.cannotOpen path) = Bytes.ofString "cannot open " ++ shown path) ∧
  (∀ other place entry, files.LeadsTo path place entry → files.Redirects path other →
    files.load other = (files.load path).mapError (.about other)) ∧
  ∀ names n directory name rest, Path.Spells path names →
    files.Leads ⟨Path.origin path files.start, names⟩ n ⟨directory, name :: rest⟩ →
    files.Circles directory name → files.load path = .error (.notRegular path)
  := by
  refine ⟨?_, ?_, ?_, ?_⟩
  · intro result
    apply load_eq_iff
  · intro shown
    refine ⟨rfl, ?_, rfl⟩
    intro size
    obtain ⟨digits, text, spells, proper⟩ := LoadError.exists_message_tooBig size shown
    exact ⟨_, digits, text, spells, proper, LoadError.kilobytes_bounds size⟩
  · intro other place entry leadsTo redirects
    apply load_of_redirects leadsTo redirects
  · intro names n directory name rest spells leads circles
    apply load_of_circles spells leads circles

/-- A program is started in a directory `d`.  Two links in it lead to a file `f` that is beside `d`
and ends in a zero byte: `l` by going up, and `r` from the root.  Besides there are a file `g` that
is too big, a file `h` that cannot be opened, and two links `a` and `b` that lead to each other. -/
def linkedFiles : FileSystem :=
  ⟨[([Bytes.ofString "d"], .directory),
    ([Bytes.ofString "l", Bytes.ofString "d"], .link (Bytes.ofString "../f")),
    ([Bytes.ofString "r", Bytes.ofString "d"], .link (Bytes.ofString "/f")),
    ([Bytes.ofString "f"], .file (.ofBytes #[43, 0])),
    ([Bytes.ofString "g"], .file ⟨#[], maxFileSize + 512, true⟩),
    ([Bytes.ofString "h"], .file ⟨#[], 1, false⟩),
    ([Bytes.ofString "a"], .link (Bytes.ofString "b")),
    ([Bytes.ofString "b"], .link (Bytes.ofString "a"))], [Bytes.ofString "d"]⟩

/-- Where the links `l` and `r` and the paths of the files `g` and `h` lead. -/
theorem isFile_linkedFiles :
  linkedFiles.IsFile (Bytes.ofString "l") (.ofBytes #[43, 0]) ∧
  linkedFiles.IsFile (Bytes.ofString "r") (.ofBytes #[43, 0]) ∧
  linkedFiles.IsFile (Bytes.ofString "/g") ⟨#[], maxFileSize + 512, true⟩ ∧
  linkedFiles.IsFile (Bytes.ofString "/h") ⟨#[], 1, false⟩
  := by
  -- `Path.visible` is not structurally recursive, so that no plain `rfl` unfolds it.
  simp only [isFile_iff]
  and_intros
  · with_unfolding_all rfl
  · with_unfolding_all rfl
  · with_unfolding_all rfl
  · with_unfolding_all rfl

/-- The targets of the links `l` and `r` may be named instead of them. -/
theorem redirects_linkedFiles :
  linkedFiles.Redirects (Bytes.ofString "l") (Bytes.ofString "../f") ∧
  linkedFiles.Redirects (Bytes.ofString "r") (Bytes.ofString "/f")
  := by
  have upward : Path.Spells (Bytes.ofString "../f") (["..", "f"].map Bytes.ofString) :=
    Path.names_eq_ok_iff.mp (by with_unfolding_all rfl)
  have fromRoot : Path.Spells (Bytes.ofString "/f") (["", "f"].map Bytes.ofString) :=
    Path.names_eq_ok_iff.mp (by with_unfolding_all rfl)
  have spells : Path.Spells (Bytes.ofString "l") [Bytes.ofString "l"] :=
    Path.names_eq_ok_iff.mp (by with_unfolding_all rfl)
  have spells' : Path.Spells (Bytes.ofString "r") [Bytes.ofString "r"] :=
    Path.names_eq_ok_iff.mp (by with_unfolding_all rfl)
  have meets : linkedFiles.Meets (Bytes.ofString "l") [] (Bytes.ofString "../f") [] :=
    .link spells (.done _) rfl (by with_unfolding_all rfl)
  have meets' : linkedFiles.Meets (Bytes.ofString "r") [] (Bytes.ofString "/f") [] :=
    .link spells' (.done _) rfl (by with_unfolding_all rfl)
  constructor
  · exact .relative meets upward (by with_unfolding_all rfl) upward
  · exact .absolute meets' fromRoot (by with_unfolding_all rfl) fromRoot

/-- The links `a` and `b` lead to each other. -/
theorem circles_linkedFiles :
  linkedFiles.Circles [] (Bytes.ofString "a")
  := by
  have spells : Path.Spells (Bytes.ofString "a") [Bytes.ofString "a"] :=
    Path.names_eq_ok_iff.mp (by with_unfolding_all rfl)
  have spells' : Path.Spells (Bytes.ofString "b") [Bytes.ofString "b"] :=
    Path.names_eq_ok_iff.mp (by with_unfolding_all rfl)
  have there : linkedFiles.Step ⟨[], [Bytes.ofString "a"]⟩ 1 ⟨[], [Bytes.ofString "b"]⟩ := by
    with_unfolding_all exact .through rfl rfl spells'
  have back : linkedFiles.Step ⟨[], [Bytes.ofString "b"]⟩ 1 ⟨[], [Bytes.ofString "a"]⟩ := by
    with_unfolding_all exact .through rfl rfl spells
  exact ⟨2, [], by decide, .next there (.next back (.done _))⟩

/-- The links `l` and `r` are loaded as the file `f` is, and so are the paths along their targets,
of which one goes up from the directory where the program is started and the other begins at the
root.  The errors name the paths as they are given. -/
theorem load_all_or_nothing_linked :
  linkedFiles.load (Bytes.ofString "l") = .ok #[43, 0] ∧
  linkedFiles.load (Bytes.ofString "../f") = .ok #[43, 0] ∧
  linkedFiles.load (Bytes.ofString "r") = .ok #[43, 0] ∧
  linkedFiles.load (Bytes.ofString "/f") = .ok #[43, 0] ∧
  (∃ error, linkedFiles.load (Bytes.ofString "/g") = .error error ∧
    error.message id = Bytes.ofString "file is too big (16384 KB)") ∧
  (∃ error, linkedFiles.load (Bytes.ofString "/h") = .error error ∧
    error.message id = Bytes.ofString "cannot open /h") ∧
  ∃ error, linkedFiles.load (Bytes.ofString "/a") = .error error ∧
    error.message id = Bytes.ofString "/a is not a regular file"
  := by
  obtain ⟨isFile, isFile', big, closed⟩ := isFile_linkedFiles
  obtain ⟨redirects, redirects'⟩ := redirects_linkedFiles
  have around : Path.Spells (Bytes.ofString "/a") (["", "a"].map Bytes.ofString) :=
    Path.names_eq_ok_iff.mp (by with_unfolding_all rfl)
  have arrives : linkedFiles.Leads ⟨Path.origin (Bytes.ofString "/a") linkedFiles.start,
      ["", "a"].map Bytes.ofString⟩ 0 ⟨[], [Bytes.ofString "a"]⟩ := by
    with_unfolding_all exact (Step.here rfl).leads
  obtain ⟨loads, -, redirected, -⟩ := load_all_or_nothing linkedFiles (Bytes.ofString "l")
  obtain ⟨loads', -, redirected', -⟩ := load_all_or_nothing linkedFiles (Bytes.ofString "r")
  obtain ⟨-, -, -, lost⟩ := load_all_or_nothing linkedFiles (Bytes.ofString "/a")
  have loaded := (loads _).mpr (.loaded isFile (by decide) rfl)
  have loaded' := (loads' _).mpr (.loaded isFile' (by decide) rfl)
  obtain ⟨_, leadsTo⟩ := isFile
  obtain ⟨_, leadsTo'⟩ := isFile'
  and_intros
  · apply loaded
  · rw [redirected _ _ _ leadsTo redirects, loaded]
    rfl
  · apply loaded'
  · rw [redirected' _ _ _ leadsTo' redirects', loaded']
    rfl
  · refine ⟨_, ((load_all_or_nothing _ _).1 _).mpr (.tooBig big (by decide)), ?_⟩
    decide +kernel
  · exact ⟨_, ((load_all_or_nothing _ _).1 _).mpr (.cannotOpen closed (by decide) rfl), rfl⟩
  · exact ⟨_, lost _ 0 [] _ [] around arrives circles_linkedFiles, rfl⟩

end FileSystem

end ByteTape
