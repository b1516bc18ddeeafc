import ByteTape.Matching
import Mathlib.Tactic.Use

/-!
# The search for the end of a loop is exact

`Program.closing?` walks forward and keeps nothing but the number of loops entered on the way.
What it finds can be told without that number: it is the loop end such that the instructions
between the start of the search and it are `Matched`, which means that each of their first parts
has at least as many loop beginnings as loop ends, and all of them have as many of the one as of
the other.  There is at most one such loop end, and if there is none then nothing is found
(`closing?_eq_iff`).

In the midst of a search some loops have been entered that have not ended yet.  `MatchedBelow`
takes their number into account, and so `ClosesBelow` says what is to be found from there
(`scan_eq_some_iff`).
-/

namespace ByteTape

namespace Program

variable {program : Program} {depth position start finish : Nat} {action : Action}
  {instruction : Instruction} {instructions : List Instruction}

/-! ### Matching brackets -/

/-- The brackets of some instructions match: no first part has more loop ends than loop beginnings,
and there are as many of the one as of the other in all. -/
def Matched (instructions : List Instruction) : Prop :=
  (∀ front, front <+: instructions → front.count .loopEnd ≤ front.count .loopStart) ∧
    instructions.count .loopStart = instructions.count .loopEnd

/-- The brackets of some instructions match if `depth` loops have begun before them. -/
def MatchedBelow (depth : Nat) (instructions : List Instruction) : Prop :=
  (∀ front, front <+: instructions → front.count .loopEnd ≤ depth + front.count .loopStart) ∧
    depth + instructions.count .loopStart = instructions.count .loopEnd

theorem matchedBelow_zero :
  MatchedBelow 0 instructions ↔ Matched instructions
  := by
  simp [MatchedBelow, Matched]

/-- Before any instruction all loops that have begun are still open. -/
theorem matchedBelow_nil :
  MatchedBelow depth [] ↔ depth = 0
  := by
  simp [MatchedBelow]

/-- A first part is empty or has the first instruction in front. -/
theorem forall_prefix_cons {P : List Instruction → Prop} :
  (∀ front, front <+: instruction :: instructions → P front) ↔
    P [] ∧ ∀ front, front <+: instructions → P (instruction :: front)
  := by
  simp only [List.prefix_cons_iff, or_imp, forall_and, forall_eq, forall_exists_index, and_imp]
  constructor
  · rintro ⟨empty, longer⟩
    use empty
    intro front before
    apply longer _ front rfl before
  · rintro ⟨empty, longer⟩
    use empty
    rintro _ front rfl before
    apply longer front before

theorem matchedBelow_act :
  MatchedBelow depth (.act action :: instructions) ↔ MatchedBelow depth instructions
  := by
  simp [MatchedBelow, forall_prefix_cons]

theorem matchedBelow_loopStart :
  MatchedBelow depth (.loopStart :: instructions) ↔ MatchedBelow (depth + 1) instructions
  := by
  simp [MatchedBelow, forall_prefix_cons, Nat.add_assoc, Nat.add_comm 1]

theorem matchedBelow_loopEnd :
  MatchedBelow (depth + 1) (.loopEnd :: instructions) ↔ MatchedBelow depth instructions
  := by
  simp [MatchedBelow, forall_prefix_cons, Nat.add_right_comm depth 1]

/-- A loop end matches nothing if no loop has begun before it. -/
theorem not_matchedBelow_zero_loopEnd :
  ¬ MatchedBelow 0 (.loopEnd :: instructions)
  := by
  rintro ⟨fronts, -⟩
  have := fronts [.loopEnd] (by simp)
  simp at this

/-! ### What a search is to find -/

/-- The instructions from one position up to another. -/
def segment (program : Program) (start finish : Nat) : List Instruction :=
  (program.extract start finish).toList

@[simp]
theorem segment_self (program : Program) (start : Nat) :
  program.segment start start = []
  := by
  simp [segment]

theorem segment_of_lt (here : program[start]? = some instruction) (before : start < finish) :
  program.segment start finish = instruction :: program.segment (start + 1) finish
  := by
  obtain ⟨inside, rfl⟩ := Array.getElem?_eq_some_iff.mp here
  have remaining : finish - start = finish - (start + 1) + 1 := by omega
  rw [segment, segment, Array.toList_extract, Array.toList_extract, List.extract_eq_take_drop,
    List.extract_eq_take_drop, List.drop_eq_getElem_cons inside, remaining, List.take_succ_cons]
  rfl

/-- There is a loop end at `finish`, and the brackets between `start` and it match. -/
structure Closes (program : Program) (start finish : Nat) : Prop where
  start_le : start ≤ finish
  finish_lt : finish < program.size
  loopEnd : program[finish]? = some .loopEnd
  matched : Matched (program.segment start finish)

/-- There is a loop end at `finish`, and the brackets between `position` and it match if `depth`
loops have begun before `position`. -/
structure ClosesBelow (program : Program) (depth position finish : Nat) : Prop where
  position_le : position ≤ finish
  loopEnd : program[finish]? = some .loopEnd
  matched : MatchedBelow depth (program.segment position finish)

theorem closesBelow_zero :
  program.ClosesBelow 0 start finish ↔ program.Closes start finish
  := by
  constructor
  · rintro ⟨le, loopEnd, matched⟩
    exact ⟨le, (Array.getElem?_eq_some_iff.mp loopEnd).1, loopEnd, matchedBelow_zero.mp matched⟩
  · rintro ⟨le, lt, loopEnd, matched⟩
    exact ⟨le, loopEnd, matchedBelow_zero.mpr matched⟩

/-- Nothing is found behind the program. -/
theorem not_closesBelow_of_size_le (past : program.size ≤ position) :
  ¬ program.ClosesBelow depth position finish
  := by
  rintro ⟨le, loopEnd, -⟩
  obtain ⟨inside, -⟩ := Array.getElem?_eq_some_iff.mp loopEnd
  omega

/-- What is to be found lies behind any instruction that is not itself the loop end. -/
theorem closesBelow_iff_of_here {depth' : Nat} (here : program[position]? = some instruction)
    (other : instruction = .loopEnd → depth ≠ 0)
    (passed : ∀ instructions,
      MatchedBelow depth (instruction :: instructions) ↔ MatchedBelow depth' instructions) :
  program.ClosesBelow depth position finish ↔ program.ClosesBelow depth' (position + 1) finish
  := by
  constructor
  · rintro ⟨le, loopEnd, matched⟩
    obtain before | rfl := Nat.lt_or_eq_of_le le
    · rw [segment_of_lt here before, passed] at matched
      exact ⟨before, loopEnd, matched⟩
    · rw [segment_self, matchedBelow_nil] at matched
      apply absurd matched (other (Option.some.inj (here.symm.trans loopEnd)))
  · rintro ⟨before, loopEnd, matched⟩
    rw [← passed, ← segment_of_lt here before] at matched
    exact ⟨Nat.le_of_lt before, loopEnd, matched⟩

/-- A loop end is what is to be found if no loop has been entered. -/
theorem closesBelow_zero_iff_of_loopEnd (here : program[position]? = some .loopEnd) :
  program.ClosesBelow 0 position finish ↔ finish = position
  := by
  constructor
  · rintro ⟨le, -, matched⟩
    obtain before | rfl := Nat.lt_or_eq_of_le le
    · rw [segment_of_lt here before] at matched
      apply absurd matched not_matchedBelow_zero_loopEnd
    · rfl
  · rintro rfl
    refine ⟨Nat.le_refl _, here, ?_⟩
    rw [segment_self, matchedBelow_nil]

/-! ### The search -/

/-- From any position on, and whatever has been entered before, the search finds what is to be
found. -/
theorem scan_eq_some_iff {left : Nat} (within : left = program.size - position) :
  program.scan left depth position = some finish ↔ program.ClosesBelow depth position finish
  := by
  induction left generalizing depth position with
  | zero =>
    have past : program.size ≤ position := by omega
    simp [scan, not_closesBelow_of_size_le past]
  | succ left ih =>
    have inside : position < program.size := by omega
    have within : left = program.size - (position + 1) := by omega
    obtain ⟨instruction, here⟩ : ∃ instruction, program[position]? = some instruction :=
      ⟨_, Array.getElem?_eq_getElem inside⟩
    rw [scan.eq_def]
    simp only [here]
    cases instruction with
    | act action =>
      rw [closesBelow_iff_of_here here (by simp) fun _ => matchedBelow_act]
      apply ih within
    | loopStart =>
      rw [closesBelow_iff_of_here here (by simp) fun _ => matchedBelow_loopStart]
      apply ih within
    | loopEnd =>
      cases depth with
      | zero =>
        rw [closesBelow_zero_iff_of_loopEnd here]
        simp [eq_comm]
      | succ depth =>
        rw [closesBelow_iff_of_here here (by simp) fun _ => matchedBelow_loopEnd]
        apply ih within

theorem closing?_eq_some_iff_closes :
  program.closing? start = some finish ↔ program.Closes start finish
  := by
  rw [closing?, scan_eq_some_iff rfl, closesBelow_zero]

/-- The search for the end of a loop finds the loop end up to which the brackets match.  There is
at most one; nothing is found exactly if there is none, in particular when the search starts behind
the program. -/
theorem closing?_eq_iff (program : Program) (start : Nat) :
  (∀ finish, program.closing? start = some finish ↔ program.Closes start finish) ∧
  (∀ finish finish', program.Closes start finish → program.Closes start finish' →
    finish = finish') ∧
  (program.closing? start = none ↔ ∀ finish, ¬ program.Closes start finish) ∧
  ∀ beyond, program.closing? (program.size + beyond) = none
  := by
  have found (finish : Nat) := @closing?_eq_some_iff_closes program start finish
  and_intros
  · apply found
  · intro finish finish' closes closes'
    apply Option.some.inj
    rw [← (found finish).mpr closes, (found finish').mpr closes']
  · simp only [Option.eq_none_iff_forall_ne_some, ne_eq, found]
  · intro beyond
    apply closing?_of_size_le (Nat.le_add_right _ _)

/-- The program `[[][[]]]+]`. -/
def nested : Program :=
  #[.loopStart, .loopStart, .loopEnd, .loopStart, .loopStart, .loopEnd, .loopEnd, .loopEnd,
    .act .increment, .loopEnd]

/-- The first loop ends behind all loops in its body, and the loop end that closes none of them
is found behind it. -/
theorem closing?_eq_iff_nested :
  nested.Closes 1 7 ∧ nested.Closes 8 9 ∧ ∀ finish, ¬ nested.Closes 10 finish
  := by
  and_intros
  · apply ((closing?_eq_iff nested 1).1 7).mp rfl
  · apply ((closing?_eq_iff nested 8).1 9).mp rfl
  · apply (closing?_eq_iff nested 10).2.2.1.mp rfl

end Program

end ByteTape
