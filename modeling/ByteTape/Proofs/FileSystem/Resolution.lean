import ByteTape.FileSystem.Basic
import ByteTape.Proofs.FileSystem.Names

/-!
# Where a path leads

A path is walked one name at a time.  `FileSystem.Step` says what a step does to the way that is
still to go, and how many links it follows, one or none.  `FileSystem.Leads` is any number of steps,
and `FileSystem.Ends` says at what entry a way ends.  A path leads to an entry if its way ends there
and no more than `FileSystem.maxLinks` links have been followed (`FileSystem.LeadsTo`), and this is
the destination that is found (`destination_eq_taken_iff`).

The names at the end of a way do not matter for the steps before them (`Leads.append`).  Hence a
link and its target are names for the same thing (`LeadsTo.of_redirects`), and a link that leads
back to itself leads nowhere (`Circles.follow_eq`).
-/

namespace ByteTape

/-- A way that is still to go, from a directory along some names. -/
structure Way where
  directory : Location
  names : List Name

/-- The way with more names to go behind it. -/
def Way.append (way : Way) (names : List Name) : Way :=
  ⟨way.directory, way.names ++ names⟩

theorem Name.not_isHere_of_isParent {name : Name} (parent : name.isParent) :
  name.isHere = false
  := by
  obtain rfl : name = _ := of_decide_eq_true parent
  rfl

theorem Name.of_isProper {name : Name} (proper : name.isProper) :
  name.isHere = false ∧ name.isParent = false
  := by
  simp only [isProper, Bool.and_eq_true, Bool.not_eq_true'] at proper
  exact proper.1

theorem Name.ne_empty_of_isProper {name : Name} (proper : name.isProper) :
  name ≠ #[]
  := by
  rintro rfl
  cases proper

namespace Path

variable {path other : Bytes} {name : Name} {rest rest' : List Name} {directory : Location}

theorem origin_of_absolute (absolute : isAbsolute path = true) :
  origin path directory = []
  := if_pos absolute

theorem origin_of_relative (relative : isAbsolute path = false) :
  origin path directory = directory
  := by
  rw [origin, relative]
  rfl

/-- Where a path begins depends on its first name. -/
theorem Spells.origin_eq (spells : Spells path (name :: rest))
    (spells' : Spells other (name :: rest')) (directory : Location) :
  origin other directory = origin path directory
  := by
  have same : isAbsolute other = isAbsolute path :=
    Bool.eq_iff_iff.mpr (spells'.isAbsolute_iff.trans spells.isAbsolute_iff.symm)
  rw [origin, origin, same]

end Path

namespace FileSystem

/-- `files.Step way n way'`: the first name of `way` leads on to `way'`, by following `n` links. -/
inductive Step (files : FileSystem) : Way → Nat → Way → Prop where
  /-- Some names stand for the directory where they are read. -/
  | here {directory : Location} {name : Name} {rest : List Name} (here : name.isHere) :
    Step files ⟨directory, name :: rest⟩ 0 ⟨directory, rest⟩
  /-- One name stands for the directory above. -/
  | up {inner : Name} {above : Location} {name : Name} {rest : List Name}
      (parent : name.isParent) :
    Step files ⟨inner :: above, name :: rest⟩ 0 ⟨above, rest⟩
  /-- At the root there is no directory above, and that name stands for the root. -/
  | top {name : Name} {rest : List Name} (parent : name.isParent) :
    Step files ⟨[], name :: rest⟩ 0 ⟨[], rest⟩
  /-- The name of a directory leads into it. -/
  | down {directory : Location} {name : Name} {rest : List Name} (proper : name.isProper)
      (found : files.entryAt? (name :: directory) = some .directory) :
    Step files ⟨directory, name :: rest⟩ 0 ⟨name :: directory, rest⟩
  /-- The name of a link is replaced by the names along its target, which are walked from the
  directory that holds the link, or from the root. -/
  | through {directory : Location} {name : Name} {rest names : List Name} {target : Bytes}
      (proper : name.isProper)
      (found : files.entryAt? (name :: directory) = some (.link target))
      (spells : Path.Spells target names) :
    Step files ⟨directory, name :: rest⟩ 1 ⟨Path.origin target directory, names ++ rest⟩

/-- `files.Leads way n way'`: steps that lead from `way` to `way'`, by following `n` links. -/
inductive Leads (files : FileSystem) : Way → Nat → Way → Prop where
  | done (way : Way) :
    Leads files way 0 way
  | next {way middle way' : Way} {k n : Nat} (step : files.Step way k middle)
      (others : Leads files middle n way') :
    Leads files way (k + n) way'

/-- `files.Ends way place entry`: the way ends at an entry, which is at `place`. -/
inductive Ends (files : FileSystem) : Way → Location → Entry → Prop where
  /-- No names are left. -/
  | directory (directory : Location) :
    Ends files ⟨directory, []⟩ directory .directory
  /-- The last name is that of a regular file. -/
  | file {directory : Location} {name : Name} {file : File} (proper : name.isProper)
      (found : files.entryAt? (name :: directory) = some (.file file)) :
    Ends files ⟨directory, [name]⟩ (name :: directory) (.file file)
  /-- The last name is that of a pipe. -/
  | pipe {directory : Location} {name : Name} (proper : name.isProper)
      (found : files.entryAt? (name :: directory) = some .pipe) :
    Ends files ⟨directory, [name]⟩ (name :: directory) .pipe

/-- `files.LeadsTo path place entry`: the path leads to an entry, which is at `place`. -/
def LeadsTo (files : FileSystem) (path : Bytes) (place : Location) (entry : Entry) : Prop :=
  ∃ names n way, Path.Spells path names ∧ files.Leads ⟨Path.origin path files.start, names⟩ n way ∧
    n ≤ maxLinks ∧ files.Ends way place entry

variable {files : FileSystem} {way middle way' : Way} {k n links : Nat} {place : Location}
  {entry : Entry} {path : Bytes}

/-! ### Steps -/

theorem Step.append (step : files.Step way n way') (names : List Name) :
  files.Step (way.append names) n (way'.append names)
  := by
  cases step with
  | here here => exact .here here
  | up parent => exact .up parent
  | top parent => exact .top parent
  | down proper found => exact .down proper found
  | through proper found spells =>
    rw [Way.append, Way.append, List.append_assoc]
    exact .through proper found spells

theorem Leads.append (leads : files.Leads way n way') (names : List Name) :
  files.Leads (way.append names) n (way'.append names)
  := by
  induction leads with
  | done way => exact .done _
  | next step _ ih => exact .next (step.append names) ih

theorem Leads.trans (leads : files.Leads way k middle) (leads' : files.Leads middle n way') :
  files.Leads way (k + n) way'
  := by
  induction leads with
  | done way => rwa [Nat.zero_add]
  | next step _ ih =>
    rw [Nat.add_assoc]
    exact .next step (ih leads')

/-- A single step leads somewhere. -/
theorem Step.leads (step : files.Step way n way') :
  files.Leads way n way'
  := .next step (.done way')

/-! ### Walking to the next link -/

/-- A walk depends on where a step leads that follows no link. -/
theorem Step.walk_eq (step : files.Step way 0 way') :
  files.walk way.directory way.names = files.walk way'.directory way'.names
  := by
  cases step with
  | here here => simp [walk, here]
  | up parent => simp [walk, parent, Name.not_isHere_of_isParent parent]
  | top parent => simp [walk, parent, Name.not_isHere_of_isParent parent]
  | down proper found => simp [walk, proper, Name.of_isProper proper, found]

theorem Ends.walk_eq (ends : files.Ends way place entry) :
  files.walk way.directory way.names = .arrived (.taken place entry)
  := by
  cases ends with
  | directory directory => rfl
  | file proper found => simp [walk, proper, Name.of_isProper proper, found]
  | pipe proper found => simp [walk, proper, Name.of_isProper proper, found]

/-- `files.Tells way walk`: what a walk says about a way.  It comes to the end of the way or to a
link, by steps that follow no link, or there is nothing to be found. -/
inductive Tells (files : FileSystem) (way : Way) : Walk → Prop where
  | taken {way' : Way} {place : Location} {entry : Entry} (leads : files.Leads way 0 way')
      (ends : files.Ends way' place entry) :
    Tells files way (.arrived (.taken place entry))
  | vacant (place : Location) :
    Tells files way (.arrived (.vacant place))
  | atLink {directory : Location} {name : Name} {rest : List Name} {target : Bytes}
      (leads : files.Leads way 0 ⟨directory, name :: rest⟩) (proper : name.isProper)
      (found : files.entryAt? (name :: directory) = some (.link target)) :
    Tells files way (.atLink directory target rest)
  | lost (error : SystemError) :
    Tells files way (.lost error)

theorem Step.tells {walk : Walk} (step : files.Step way 0 way') (tells : files.Tells way' walk) :
  files.Tells way walk
  := by
  cases tells with
  | taken leads ends => exact .taken (.next step leads) ends
  | vacant place => exact .vacant place
  | atLink leads proper found => exact .atLink (.next step leads) proper found
  | lost error => exact .lost error

/-- What a walk says is true. -/
theorem tells_walk (files : FileSystem) (directory : Location) (names : List Name) :
  files.Tells ⟨directory, names⟩ (files.walk directory names)
  := by
  fun_induction walk files directory names with
  | case1 directory => exact .taken (.done _) (.directory directory)
  | case2 directory name rest here ih => exact Step.tells (.here here) ih
  | case3 directory name rest _ parent ih =>
    cases directory with
    | nil => exact Step.tells (.top parent) ih
    | cons inner above => exact Step.tells (.up parent) ih
  | case4 => exact .lost _
  | case5 => exact .vacant _
  | case6 => exact .lost _
  | case7 directory name rest _ _ proper found ih =>
    exact Step.tells (.down (by simpa using proper) found) ih
  | case8 directory name rest _ _ proper target found =>
    exact .atLink (.done _) (by simpa using proper) found
  | case9 directory name _ _ proper entry other other' found =>
    cases entry with
    | file file => exact .taken (.done _) (.file (by simpa using proper) found)
    | pipe => exact .taken (.done _) (.pipe (by simpa using proper) found)
    | directory => exact absurd rfl other
    | link target => exact absurd rfl (other' target)
  | case10 => exact .lost _

theorem exists_leads_of_walk {directory : Location} {names : List Name}
    (arrived : files.walk directory names = .arrived (.taken place entry)) :
  ∃ way, files.Leads ⟨directory, names⟩ 0 way ∧ files.Ends way place entry
  := by
  have tells := tells_walk files directory names
  rw [arrived] at tells
  cases tells with
  | taken leads ends => exact ⟨_, leads, ends⟩

/-! ### Following links -/

/-- What is found at the end of a way depends on what a walk comes to. -/
theorem follow_congr {directory directory' : Location} {names names' : List Name}
    (same : files.walk directory names = files.walk directory' names') (links : Nat) :
  files.follow links directory names = files.follow links directory' names'
  := by
  cases links with
  | zero => rw [follow, follow, same]
  | succ links => rw [follow, follow, same]

/-- A step leaves as many links to follow as it has not followed, if there are as many. -/
theorem Step.follow_eq (step : files.Step way k way') (links : Nat) :
  files.follow links way.directory way.names =
    if k ≤ links then files.follow (links - k) way'.directory way'.names
    else .error .tooManyLinks
  := by
  cases step with
  | here here =>
    rw [if_pos (Nat.zero_le links)]
    apply follow_congr (Step.walk_eq (.here here))
  | up parent =>
    rw [if_pos (Nat.zero_le links)]
    apply follow_congr (Step.walk_eq (.up parent))
  | top parent =>
    rw [if_pos (Nat.zero_le links)]
    apply follow_congr (Step.walk_eq (.top parent))
  | down proper found =>
    rw [if_pos (Nat.zero_le links)]
    apply follow_congr (Step.walk_eq (.down proper found))
  | @through directory name rest names target proper found spells =>
    have stops : files.walk directory (name :: rest) = .atLink directory target rest := by
      simp [walk, proper, Name.of_isProper proper, found]
    cases links with
    | zero => simp [follow, stops]
    | succ links => simp [follow, stops, Path.names_eq_ok_iff.mpr spells, Except.bind]

/-- Steps leave as many links to follow as they have not followed, if there are as many. -/
theorem Leads.follow_eq (leads : files.Leads way n way') (links : Nat) :
  files.follow links way.directory way.names =
    if n ≤ links then files.follow (links - n) way'.directory way'.names
    else .error .tooManyLinks
  := by
  induction leads generalizing links with
  | done way => simp
  | @next way middle way' k n step others ih =>
    rw [step.follow_eq, ih]
    by_cases enough : k + n ≤ links
    · rw [if_pos (by omega), if_pos (by omega), if_pos enough, Nat.sub_sub]
    · rw [if_neg enough]
      split
      · rw [if_neg (by omega)]
      · rfl

theorem Ends.follow_eq (ends : files.Ends way place entry) (links : Nat) :
  files.follow links way.directory way.names = .ok (.taken place entry)
  := by
  cases links with
  | zero => rw [follow, ends.walk_eq]
  | succ links => rw [follow, ends.walk_eq]

/-- What is found at the end of a way is where it ends. -/
theorem follow_eq_taken_iff {directory : Location} {names : List Name} :
  files.follow links directory names = .ok (.taken place entry) ↔
    ∃ n way, files.Leads ⟨directory, names⟩ n way ∧ n ≤ links ∧ files.Ends way place entry
  := by
  constructor
  · intro found
    fun_induction follow files links directory names with
    | case1 directory names destination arrived =>
      cases found
      obtain ⟨way, leads, ends⟩ := exists_leads_of_walk arrived
      exact ⟨0, way, leads, Nat.le_refl 0, ends⟩
    | case2 => cases found
    | case3 => cases found
    | case4 links directory names destination arrived =>
      cases found
      obtain ⟨way, leads, ends⟩ := exists_leads_of_walk arrived
      exact ⟨0, way, leads, Nat.zero_le _, ends⟩
    | case5 links directory names directory' target rest stopped ih =>
      obtain ⟨names', spells, found⟩ := Path.names_bind_eq_ok_iff.mp found
      obtain ⟨n, way, leads', enough, ends⟩ := ih names' found
      have tells := tells_walk files directory names
      rw [stopped] at tells
      cases tells with
      | atLink leads proper link =>
        have through : files.Step ⟨directory', _ :: rest⟩ 1
            ⟨Path.origin target directory', names' ++ rest⟩ := .through proper link spells
        exact ⟨0 + (1 + n), way, leads.trans (.next through leads'), by omega, ends⟩
    | case6 => cases found
  · rintro ⟨n, way, leads, enough, ends⟩
    have found := leads.follow_eq links
    rwa [if_pos enough, ends.follow_eq] at found

/-! ### Paths -/

/-- The destination of a path is where it leads. -/
theorem destination_eq_taken_iff :
  files.destination path = .ok (.taken place entry) ↔ files.LeadsTo path place entry
  := by
  rw [destination, Path.names_bind_eq_ok_iff]
  simp only [follow_eq_taken_iff]
  constructor
  · rintro ⟨names, spells, n, way, leads, enough, ends⟩
    exact ⟨names, n, way, spells, leads, enough, ends⟩
  · rintro ⟨names, n, way, spells, leads, enough, ends⟩
    exact ⟨names, spells, n, way, leads, enough, ends⟩

/-- The entry that is found for a path is the one to which it leads. -/
theorem status_eq_ok_iff :
  files.status path = .ok entry ↔ ∃ place, files.LeadsTo path place entry
  := by
  simp only [← destination_eq_taken_iff, status]
  cases files.destination path with
  | error error => simp
  | ok destination =>
    cases destination with
    | taken place entry => simp
    | vacant place => simp

/-! ### Links and their targets -/

/-- `files.Meets path front target rest`: a path comes along the names `front` to a link, and has
the names `rest` to go behind it. -/
inductive Meets (files : FileSystem) (path : Bytes) : List Name → Bytes → List Name → Prop where
  | link {front rest : List Name} {name : Name} {n : Nat} {directory : Location} {target : Bytes}
      (spells : Path.Spells path (front ++ name :: rest))
      (leads : files.Leads ⟨Path.origin path files.start, front⟩ n ⟨directory, []⟩)
      (proper : name.isProper) (found : files.entryAt? (name :: directory) = some (.link target)) :
    Meets files path front target rest

/-- `files.Redirects path other`: there is a link on the way along `path`, and `other` goes along
its target instead. -/
inductive Redirects (files : FileSystem) (path other : Bytes) : Prop where
  /-- If the target is read in the directory of the link, its names take the place of the name of
  the link. -/
  | relative {front rest names : List Name} {target : Bytes}
      (meets : files.Meets path front target rest) (aim : Path.Spells target names)
      (relative : Path.isAbsolute target = false)
      (other : Path.Spells other (front ++ (names ++ rest)))
  /-- If the target is read at the root, the names before it do not matter any more. -/
  | absolute {front rest names : List Name} {target : Bytes}
      (meets : files.Meets path front target rest) (aim : Path.Spells target names)
      (absolute : Path.isAbsolute target = true) (other : Path.Spells other (names ++ rest))

section

variable {front rest names : List Name} {name : Name} {directory : Location} {target other : Bytes}

/-- Behind a link that a path comes to, the target leads to where the path leads, and there are
links enough for it. -/
theorem LeadsTo.behind_link (leadsTo : files.LeadsTo path place entry)
    (spells : Path.Spells path (front ++ name :: rest))
    (leads : files.Leads ⟨Path.origin path files.start, front⟩ n ⟨directory, []⟩)
    (proper : name.isProper) (found : files.entryAt? (name :: directory) = some (.link target))
    (aim : Path.Spells target names) :
  ∃ k way, files.Leads ⟨Path.origin target directory, names ++ rest⟩ k way ∧ n + 1 + k ≤ maxLinks ∧
    files.Ends way place entry
  := by
  obtain ⟨names', n', way, again, leads', enough, ends⟩ := leadsTo
  obtain rfl := again.unique spells
  have viaLink := (leads.append (name :: rest)).trans (Step.through proper found aim).leads
  have passed : files.follow maxLinks (Path.origin path files.start) (front ++ name :: rest) =
      if n + 1 ≤ maxLinks then
        files.follow (maxLinks - (n + 1)) (Path.origin target directory) (names ++ rest)
      else .error .tooManyLinks := viaLink.follow_eq maxLinks
  rw [follow_eq_taken_iff.mpr ⟨n', way, leads', enough, ends⟩] at passed
  split at passed
  · obtain ⟨k, way', onward, left, ends'⟩ := follow_eq_taken_iff.mp passed.symm
    exact ⟨k, way', onward, by omega, ends'⟩
  · cases passed

/-- A path that goes along a target which is read in the directory of the link begins where the path
that goes along the link begins. -/
theorem origin_eq_of_relative (spells : Path.Spells path (front ++ name :: rest))
    (proper : name.isProper) (aim : Path.Spells target names)
    (relative : Path.isAbsolute target = false)
    (spells' : Path.Spells other (front ++ (names ++ rest))) (directory : Location) :
  Path.origin other directory = Path.origin path directory
  := by
  cases front with
  | cons first others => apply spells.origin_eq spells'
  | nil =>
    have here : Path.isAbsolute path = false := by
      rw [Bool.eq_false_iff, Ne, spells.isAbsolute_iff]
      apply Name.ne_empty_of_isProper proper
    obtain ⟨first, others, rfl⟩ := List.exists_cons_of_ne_nil aim.ne_nil
    rw [aim.origin_eq spells', Path.origin_of_relative relative, Path.origin_of_relative here]

end

/-- Where a link leads, its target leads too. -/
theorem LeadsTo.of_redirects {other : Bytes} (leadsTo : files.LeadsTo path place entry)
    (redirects : files.Redirects path other) :
  files.LeadsTo other place entry
  := by
  cases redirects with
  | relative meets aim relative spells' =>
    obtain ⟨spells, leads, proper, found⟩ := meets
    obtain ⟨k, way, onward, enough, ends⟩ := leadsTo.behind_link spells leads proper found aim
    rw [Path.origin_of_relative relative] at onward
    have viaTarget := (leads.append _).trans onward
    rw [← origin_eq_of_relative spells proper aim relative spells'] at viaTarget
    exact ⟨_, _, way, spells', viaTarget, by omega, ends⟩
  | @absolute _ _ _ target meets aim absolute spells' =>
    obtain ⟨spells, leads, proper, found⟩ := meets
    obtain ⟨k, way, onward, enough, ends⟩ := leadsTo.behind_link spells leads proper found aim
    obtain ⟨first, others, rfl⟩ := List.exists_cons_of_ne_nil aim.ne_nil
    have atRoot (directory : Location) : Path.origin target directory = [] :=
      Path.origin_of_absolute absolute
    rw [atRoot, ← atRoot files.start, ← aim.origin_eq spells'] at onward
    exact ⟨_, k, way, spells', onward, by omega, ends⟩

/-- A link whose target comes back to it, perhaps with more names to go. -/
def Circles (files : FileSystem) (directory : Location) (name : Name) : Prop :=
  ∃ n rest, 0 < n ∧ files.Leads ⟨directory, [name]⟩ n ⟨directory, name :: rest⟩

/-- Behind a link whose target comes back to it there are too many links, however many may be
followed. -/
theorem Circles.follow_eq {directory : Location} {name : Name}
    (circles : files.Circles directory name) (links : Nat) (rest : List Name) :
  files.follow links directory (name :: rest) = .error .tooManyLinks
  := by
  -- Each time around takes some of the links that may be followed.
  induction links using Nat.strongRecOn generalizing rest with
  | ind links ih =>
    obtain ⟨n, more, some, leads⟩ := circles
    have around : files.follow links directory (name :: rest) =
        if n ≤ links then files.follow (links - n) directory (name :: (more ++ rest))
        else .error .tooManyLinks := (leads.append rest).follow_eq links
    rw [around]
    split
    · apply ih (links - n) (by omega)
    · rfl

end FileSystem

end ByteTape
