import ByteTape.CommandLine.Argument
import Mathlib.Tactic.Use

/-!
# How arguments are divided into groups

Every list of arguments falls into groups in one way only: the groups spell the list, each is what
its arguments say, and none but the last one lacks a value (`Argument.divides_iff`).  So a list
may be cut behind any group that has its value (`Argument.ofList_append`), and groups that have
their values may be written in any order (`Argument.ofList_flatMap_written`).
-/

namespace ByteTape

namespace CommandLine

namespace Argument

variable {argument flag value : Bytes} {group : Argument} {groups : List Argument}
  {arguments : List Bytes}

/-- The arguments that form a group. -/
def written : Argument → List Bytes
  | verbose => [Bytes.ofString "-v"]
  | printOnly => [Bytes.ofString "-p"]
  | help => [Bytes.ofString "-h"]
  | eof value => [Bytes.ofString "-e", value]
  | limit value => [Bytes.ofString "-l", value]
  | valueless flag => [flag]
  | unknown flag => [flag]
  | source path => [path]

/-- Whether no value is missing from a group. -/
def isComplete : Argument → Bool
  | valueless _ => false
  | _ => true

/-- Whether a group that is known by a single argument is what that argument says. -/
def IsProper : Argument → Prop
  | valueless flag => flag = Bytes.ofString "-e" ∨ flag = Bytes.ofString "-l"
  | unknown flag =>
    flag[0]? = some hyphen ∧ flag ∉ ["-v", "-p", "-h", "-e", "-l"].map Bytes.ofString
  | source path => path[0]? ≠ some hyphen
  | _ => True

/-- The arguments are divided into the groups, from left to right. -/
structure Divides (arguments : List Bytes) (groups : List Argument) : Prop where
  spelled : groups.flatMap written = arguments
  proper : ∀ group ∈ groups, group.IsProper
  complete : ∀ group ∈ groups.dropLast, group.isComplete

/-! ### One group -/

theorem withValue?_eq_some_iff {form : Bytes → Argument} :
  withValue? flag = some form ↔
    flag = Bytes.ofString "-e" ∧ form = eof ∨ flag = Bytes.ofString "-l" ∧ form = limit
  := by
  have different : Bytes.ofString "-l" ≠ Bytes.ofString "-e" := by decide +kernel
  by_cases asEof : flag = Bytes.ofString "-e"
  · simp [withValue?, asEof, different.symm, eq_comm]
  · by_cases asLimit : flag = Bytes.ofString "-l"
    · simp [withValue?, asLimit, different, eq_comm]
    · simp [withValue?, asEof, asLimit]

theorem withValue?_eq_none_iff :
  withValue? flag = none ↔ flag ≠ Bytes.ofString "-e" ∧ flag ≠ Bytes.ofString "-l"
  := by
  by_cases asEof : flag = Bytes.ofString "-e"
  · simp [withValue?, asEof]
  · by_cases asLimit : flag = Bytes.ofString "-l"
    · rw [withValue?, if_neg asEof, if_pos asLimit]
      simp [asLimit]
    · simp [withValue?, asEof, asLimit]

/-- A single argument is all there is of its group. -/
theorem written_ofSingle (argument : Bytes) :
  (ofSingle argument).written = [argument]
  := by
  fun_cases ofSingle argument with
  | case1 path => rfl
  | case2 hyphenated same => rw [same, written]
  | case3 hyphenated noVerbose same => rw [same, written]
  | case4 hyphenated noVerbose noPrint same => rw [same, written]
  | case5 hyphenated noVerbose noPrint noHelp => rfl

/-- An argument that takes no value is what its group says. -/
theorem isProper_ofSingle (alone : withValue? argument = none) :
  (ofSingle argument).IsProper
  := by
  obtain ⟨noEof, noLimit⟩ := withValue?_eq_none_iff.mp alone
  fun_cases ofSingle argument with
  | case1 path => apply path
  | case2 => trivial
  | case3 => trivial
  | case4 => trivial
  | case5 hyphenated noVerbose noPrint noHelp =>
    simp_all [IsProper]

theorem isComplete_ofSingle (argument : Bytes) :
  (ofSingle argument).isComplete
  := by
  fun_cases ofSingle argument <;> rfl

/-- A flag and the value that it takes are what their group says. -/
theorem of_withValue? {form : Bytes → Argument} (takes : withValue? flag = some form)
    (value : Bytes) :
  (form value).written = [flag, value] ∧ (form value).IsProper ∧ (form value).isComplete
  := by
  obtain ⟨rfl, rfl⟩ | ⟨rfl, rfl⟩ := withValue?_eq_some_iff.mp takes
  · exact ⟨rfl, trivial, rfl⟩
  · exact ⟨rfl, trivial, rfl⟩

theorem ofList_cons_of_none (alone : withValue? argument = none) (rest : List Bytes) :
  ofList (argument :: rest) = ofSingle argument :: ofList rest
  := by
  cases rest with
  | nil => simp [ofList, alone]
  | cons next rest => simp [ofList, alone]

theorem ofList_cons_cons_of_some {form : Bytes → Argument} (takes : withValue? flag = some form)
    (value : Bytes) (rest : List Bytes) :
  ofList (flag :: value :: rest) = form value :: ofList rest
  := by
  simp [ofList, takes]

/-- A group that has its value is found again in front of any further arguments. -/
theorem ofList_written_append (proper : group.IsProper) (complete : group.isComplete)
    (rest : List Bytes) :
  ofList (group.written ++ rest) = group :: ofList rest
  := by
  cases group with
  | verbose => apply ofList_cons_of_none rfl
  | printOnly => apply ofList_cons_of_none rfl
  | help => apply ofList_cons_of_none rfl
  | eof value => apply ofList_cons_cons_of_some rfl
  | limit value => apply ofList_cons_cons_of_some rfl
  | valueless flag => cases complete
  | unknown flag =>
    obtain ⟨hyphenated, other⟩ := proper
    simp only [List.map_cons, List.map_nil, List.mem_cons, List.not_mem_nil, or_false,
      not_or] at other
    rw [written, List.singleton_append, ofList_cons_of_none]
    · simp [ofSingle, hyphenated, other]
    · simp [withValue?_eq_none_iff, other]
  | source path =>
    replace proper : path[0]? ≠ some hyphen := proper
    have noEof : path ≠ Bytes.ofString "-e" := by
      rintro rfl
      apply proper rfl
    have noLimit : path ≠ Bytes.ofString "-l" := by
      rintro rfl
      apply proper rfl
    rw [written, List.singleton_append, ofList_cons_of_none]
    · rw [ofSingle, if_pos proper]
    · apply withValue?_eq_none_iff.mpr ⟨noEof, noLimit⟩

/-- A group by itself is found again, even if its value is missing. -/
theorem ofList_written (proper : group.IsProper) :
  ofList group.written = [group]
  := by
  by_cases complete : group.isComplete
  · simpa [ofList] using ofList_written_append proper complete []
  · cases group with
    | valueless flag =>
      obtain rfl | rfl := proper
      · rfl
      · rfl
    | _ => exact absurd rfl complete

/-! ### All groups -/

theorem Divides.cons (divided : Divides arguments groups) (proper : group.IsProper)
    (complete : group.isComplete) :
  Divides (group.written ++ arguments) (group :: groups)
  where
  spelled := by rw [List.flatMap_cons, divided.spelled]
  proper := List.forall_mem_cons.mpr ⟨proper, divided.proper⟩
  complete := by
    cases groups with
    | nil => simp
    | cons next rest => exact List.forall_mem_cons.mpr ⟨complete, divided.complete⟩

/-- The groups of a list of arguments divide it. -/
theorem divides_ofList (arguments : List Bytes) :
  Divides arguments (ofList arguments)
  := by
  fun_induction ofList arguments with
  | case1 => exact ⟨rfl, by simp, by simp⟩
  | case2 flag form takes =>
    have proper : (valueless flag).IsProper := by
      obtain ⟨same, -⟩ | ⟨same, -⟩ := withValue?_eq_some_iff.mp takes
      · exact .inl same
      · exact .inr same
    exact ⟨rfl, by simpa using proper, by simp⟩
  | case3 argument alone =>
    have nothing : Divides [] [] := ⟨rfl, by simp, by simp⟩
    have divided := nothing.cons (isProper_ofSingle alone) (isComplete_ofSingle argument)
    rwa [written_ofSingle] at divided
  | case4 flag value rest form takes ih =>
    obtain ⟨spelled, proper, complete⟩ := of_withValue? takes value
    have divided := ih.cons proper complete
    rwa [spelled] at divided
  | case5 argument next rest alone ih =>
    have divided := ih.cons (isProper_ofSingle alone) (isComplete_ofSingle argument)
    rwa [written_ofSingle] at divided

/-- Groups that have their values are found again in front of any further arguments. -/
theorem ofList_flatMap_written_append (proper : ∀ group ∈ groups, group.IsProper)
    (complete : ∀ group ∈ groups, group.isComplete) (rest : List Bytes) :
  ofList (groups.flatMap written ++ rest) = groups ++ ofList rest
  := by
  induction groups with
  | nil => rfl
  | cons group groups ih =>
    rw [List.forall_mem_cons] at proper complete
    rw [List.flatMap_cons, List.append_assoc, ofList_written_append proper.1 complete.1,
      ih proper.2 complete.2, List.cons_append]

/-- Groups that have their values, written one after the other, are the groups of what has been
written. -/
theorem ofList_flatMap_written (proper : ∀ group ∈ groups, group.IsProper)
    (complete : ∀ group ∈ groups, group.isComplete) :
  ofList (groups.flatMap written) = groups
  := by
  simpa [ofList] using ofList_flatMap_written_append proper complete []

/-- A list of arguments may be cut where no value is missing. -/
theorem ofList_append {front : List Bytes} (complete : ∀ group ∈ ofList front, group.isComplete)
    (back : List Bytes) :
  ofList (front ++ back) = ofList front ++ ofList back
  := by
  have divided := divides_ofList front
  rw [← ofList_flatMap_written_append divided.proper complete, divided.spelled]

/-- A list of arguments is divided into its groups and no others. -/
theorem divides_iff :
  Divides arguments groups ↔ groups = ofList arguments
  := by
  constructor
  · rintro ⟨rfl, proper, complete⟩
    -- Only the last group may lack its value, and it stands in front of no further arguments.
    obtain rfl | ⟨front, last, rfl⟩ := List.eq_nil_or_concat groups
    · rfl
    · simp only [List.concat_eq_append, List.dropLast_concat, List.forall_mem_append,
        List.forall_mem_singleton] at proper complete ⊢
      rw [List.flatMap_append, ofList_flatMap_written_append proper.1 complete,
        List.flatMap_singleton, ofList_written proper.2]
  · rintro rfl
    apply divides_ofList

end Argument

end CommandLine

end ByteTape
