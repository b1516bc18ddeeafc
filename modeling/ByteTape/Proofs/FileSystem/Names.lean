import ByteTape.Path
import Mathlib.Tactic.Use

/-!
# The names along a path

A path spells names if it consists of them with a slash between any two, none of them has a slash
in it, and it is neither empty nor too long.  These are the names that are found along it, and
there are no others (`names_eq_ok_iff`).  A path begins at the root exactly if its first name is
empty (`Spells.isAbsolute_iff`).
-/

namespace ByteTape

namespace Path

/-- `Spells path names`: a path, up to its first zero byte, is made of the names with a slash
between any two. -/
structure Spells (path : Bytes) (names : List Name) : Prop where
  nonempty : visible path ≠ #[]
  short : (visible path).size ≤ maxSize
  apart : ∀ name ∈ names, slash ∉ name
  joined : [slash].intercalate (names.map Array.toList) = (visible path).toList

variable {path : Bytes} {name : Name} {names rest : List Name}

/-! ### Splitting at slashes -/

theorem split_cons (byte : UInt8) (rest : List UInt8) :
  split (byte :: rest) = if byte = slash then [] :: split rest else extendFirst byte (split rest)
  := rfl

theorem extendFirst_eq_modifyHead (byte : UInt8) {names : List (List UInt8)} (any : names ≠ []) :
  extendFirst byte names = names.modifyHead (byte :: ·)
  := by
  cases names with
  | nil => exact absurd rfl any
  | cons first others => rfl

theorem split_eq_splitOn (bytes : List UInt8) :
  split bytes = bytes.splitOn slash
  := by
  induction bytes with
  | nil => rfl
  | cons byte rest ih =>
    have any : split rest ≠ [] := by
      rw [ih]
      apply List.splitOn_ne_nil
    rw [split_cons, extendFirst_eq_modifyHead byte any, ih, List.splitOn, List.splitOn,
      List.splitOnP_cons_eq_if_modifyHead]
    simp

/-- No name has a slash in it. -/
theorem slash_not_mem_of_mem_split {bytes name : List UInt8} (among : name ∈ split bytes) :
  slash ∉ name
  := by
  induction bytes generalizing name with
  | nil =>
    obtain rfl := List.mem_singleton.mp among
    apply List.not_mem_nil
  | cons byte rest ih =>
    rw [split_cons] at among
    split at among
    · obtain rfl | later := List.mem_cons.mp among
      · apply List.not_mem_nil
      · apply ih later
    · rename_i other
      cases divided : split rest with
      | nil =>
        rw [divided] at among
        obtain rfl := List.mem_singleton.mp among
        simpa using Ne.symm other
      | cons first others =>
        rw [divided] at among ih
        obtain rfl | later := List.mem_cons.mp among
        · simpa [Ne.symm other] using ih List.mem_cons_self
        · apply ih (List.mem_cons_of_mem first later)

theorem split_intercalate {names : List (List UInt8)} (any : names ≠ [])
    (apart : ∀ name ∈ names, slash ∉ name) :
  split ([slash].intercalate names) = names
  := by
  rw [split_eq_splitOn, List.splitOn_intercalate slash apart any]

theorem intercalate_split (bytes : List UInt8) :
  [slash].intercalate (split bytes) = bytes
  := by
  rw [split_eq_splitOn, List.intercalate_splitOn]

/-! ### Paths -/

/-- A path spells at least one name. -/
theorem Spells.ne_nil (spells : Spells path names) :
  names ≠ []
  := by
  rintro rfl
  apply spells.nonempty
  exact Array.toList_eq_nil_iff.mp spells.joined.symm

/-- The names that are found along a path are those that it spells. -/
theorem names_eq_ok_iff :
  Path.names path = .ok names ↔ Spells path names
  := by
  rw [Path.names]
  constructor
  · intro found
    split at found
    · cases found
    · rename_i nonempty
      split at found
      · cases found
      · rename_i short
        cases found
        have lists : ((split (visible path).toList).map List.toArray).map Array.toList =
            split (visible path).toList := by simp [Function.comp_def]
        refine ⟨by simpa using nonempty, Nat.not_lt.mp short, ?_, ?_⟩
        · intro name among
          obtain ⟨bytes, part, rfl⟩ := List.mem_map.mp among
          simpa using slash_not_mem_of_mem_split part
        · rw [lists, intercalate_split]
  · intro spells
    have divided : split (visible path).toList = names.map Array.toList := by
      rw [← spells.joined]
      apply split_intercalate
      · simpa using spells.ne_nil
      · intro bytes among
        obtain ⟨name, given, rfl⟩ := List.mem_map.mp among
        simpa using spells.apart name given
    simp [spells.nonempty, Nat.not_lt.mpr spells.short, divided, Function.comp_def]

/-- What comes after the names of a path succeeds only if the path spells some. -/
theorem names_bind_eq_ok_iff {α : Type} {f : List Name → Except SystemError α} {result : α} :
  (Path.names path).bind f = .ok result ↔ ∃ names, Spells path names ∧ f names = .ok result
  := by
  simp only [← names_eq_ok_iff]
  cases Path.names path with
  | error error => simp [Except.bind]
  | ok names => simp [Except.bind]

theorem Spells.unique {names' : List Name} (spells : Spells path names)
    (spells' : Spells path names') :
  names = names'
  := by
  rw [← names_eq_ok_iff] at spells spells'
  apply Except.ok.inj (spells.symm.trans spells')

/-- A path begins with a slash exactly if its first name is empty. -/
theorem Spells.isAbsolute_iff (spells : Spells path (name :: rest)) :
  isAbsolute path ↔ name = #[]
  := by
  obtain ⟨nonempty, -, apart, joined⟩ := spells
  rw [isAbsolute, decide_eq_true_iff, ← Array.getElem?_toList, ← joined]
  obtain ⟨_ | ⟨byte, bytes⟩⟩ := name
  · cases rest with
    | nil => exact absurd (Array.toList_eq_nil_iff.mp joined.symm) nonempty
    | cons next others => simp
  · have other : byte ≠ slash := by
      rintro rfl
      apply apart _ List.mem_cons_self
      simp
    cases rest with
    | nil => simp [other]
    | cons next others => simp [other]

end Path

end ByteTape
