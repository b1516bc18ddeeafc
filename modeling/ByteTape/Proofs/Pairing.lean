import ByteTape.Proofs.JumpTable

/-!
# Searching from one loop and passing over the whole program

The search for the end of a loop sees nothing of the program before the loop and only counts; a
pass over the whole program carries a stack along.  Both pair the brackets alike, whatever stray
brackets there are before, inside or behind a loop (`closing?_by_pass`).  So loops do not cross
(`Pairs.nested_or_apart`), and the loop ends for which no search is responsible are those at which
the stack of the pass is empty (`strayEnd_iff_unpaired`).
-/

namespace ByteTape

namespace Program

variable {program : Program}

/-! ### Loops do not cross -/

/-- Of two loops the one that begins later lies behind the other one or inside it. -/
theorem Pairs.nested_or_apart {p q p' q' : Nat} (pair : program.Pairs p q)
    (pair' : program.Pairs p' q') (later : p < p') :
  q < p' ∨ q' < q
  := by
  obtain apart | begun := Nat.lt_or_ge q p'
  · exact .inl apart
  · right
    have different : p' ≠ q := by
      rintro rfl
      have := pair'.lt.2.1.symm.trans pair.1
      cases this
    by_contra still
    -- If the later loop did not end before the other one, it would be open at the other one's end.
    have among := pair'.mem_openLoops_of_le (Nat.lt_of_le_of_ne begun different)
      (Nat.le_of_not_lt still)
    rw [pair.openLoops_finish] at among
    obtain same | among := List.mem_cons.mp among
    · apply Nat.ne_of_gt later same
    · apply Nat.lt_asymm later (of_mem_openLoops among).1

/-- A loop end is stray exactly if it is paired with nothing. -/
theorem strayEnd_iff_unpaired {finish : Nat} (here : program[finish]? = some .loopEnd) :
  program.StrayEnd finish ↔ ∀ start, ¬ program.Pairs start finish
  := by
  constructor
  · rintro ⟨-, empty⟩ start ⟨-, top⟩
    rw [empty] at top
    cases top
  · intro unpaired
    use here
    cases stack : program.openLoops finish with
    | nil => rfl
    | cons start outer =>
      apply absurd _ (unpaired start)
      use here
      rw [stack]
      rfl

/-! ### The pass over the whole program -/

/-- When the pass has come to a position, its table describes all instructions before it. -/
theorem describes_extract {k : Nat} (inside : k ≤ program.size) :
  JumpTable.Describes program k (.ofProgram (program.extract 0 k))
  := by
  induction k with
  | zero =>
    rw [Array.extract_zero]
    apply JumpTable.describes_empty
  | succ k ih =>
    have next : program.extract 0 (k + 1) = (program.extract 0 k).push program[k] := by
      rw [Array.push_extract_getElem]
      rfl
    rw [next, JumpTable.ofProgram, Array.foldl_push]
    apply (ih (Nat.le_of_succ_le inside)).record
    apply Array.getElem?_eq_getElem

/-- The search for the end of a loop and a single pass over the whole program with a stack pair the
brackets alike.

* The search from behind a loop beginning finds the loop end that takes this beginning from the
  stack.
* That is the partner which the pass enters into its table; if it enters none then nothing is found.
* The ends of different loops are different.
* Of two loops the one that begins later lies behind the other one or inside it.
* A loop end is found from no loop beginning exactly if the pass meets it while no loop is open.
* The loops that are open at a position are those on the stack when the pass has come there. -/
theorem closing?_by_pass (program : Program) :
  (∀ start finish, program[start]? = some .loopStart →
    (program.closing? (start + 1) = some finish ↔ program.Pairs start finish)) ∧
  (∀ start, program[start]? = some .loopStart →
    program.closing? (start + 1) = (JumpTable.ofProgram program).partner? start) ∧
  (∀ start start' finish, program[start]? = some .loopStart →
    program[start']? = some .loopStart → program.closing? (start + 1) = some finish →
    program.closing? (start' + 1) = some finish → start = start') ∧
  (∀ start start' finish finish', program[start]? = some .loopStart →
    program[start']? = some .loopStart → program.closing? (start + 1) = some finish →
    program.closing? (start' + 1) = some finish' → start < start' →
    finish < start' ∨ finish' < finish) ∧
  (∀ finish, program[finish]? = some .loopEnd →
    ((∀ start, program[start]? = some .loopStart → program.closing? (start + 1) ≠ some finish) ↔
      program.openLoops finish = [])) ∧
  ∀ k ≤ program.size, (JumpTable.ofProgram (program.extract 0 k)).unclosed = program.openLoops k
  := by
  and_intros
  · intro start finish here
    apply closing?_eq_some_iff here
  · intro start here
    symm
    apply JumpTable.partner?_of_loopStart here
  · intro start start' finish here here' found found'
    have pair := (closing?_eq_some_iff here).mp found
    apply pair.start_unique ((closing?_eq_some_iff here').mp found')
  · intro start start' finish finish' here here' found found' later
    have pair := (closing?_eq_some_iff here).mp found
    apply pair.nested_or_apart ((closing?_eq_some_iff here').mp found') later
  · intro finish here
    have stray : program.StrayEnd finish ↔ program.openLoops finish = [] := and_iff_right here
    rw [← stray, strayEnd_iff_unpaired here]
    constructor
    · intro missed start pair
      apply missed start pair.lt.2.1
      apply (closing?_eq_some_iff pair.lt.2.1).mpr pair
    · intro unpaired start here' found
      apply unpaired start ((closing?_eq_some_iff here').mp found)
  · intro k inside
    apply (describes_extract inside).unclosed_eq

/-- The program `][[]+]][`. -/
def straying : Program :=
  #[.loopEnd, .loopStart, .loopStart, .loopEnd, .act .increment, .loopEnd, .loopEnd, .loopStart]

/-- The stray brackets around the two loops do not change which brackets are paired. -/
theorem closing?_by_pass_straying :
  straying.Pairs 1 5 ∧ (JumpTable.ofProgram straying).partner? 2 = some 3 ∧
  (JumpTable.ofProgram straying).partner? 7 = none ∧ (5 < 2 ∨ 3 < 5) ∧
  ∀ start, straying[start]? = some .loopStart → straying.closing? (start + 1) ≠ some 6
  := by
  obtain ⟨paired, table, -, apart, missed, -⟩ := closing?_by_pass straying
  refine ⟨?_, ?_, ?_, ?_, ?_⟩
  · apply (paired 1 5 rfl).mp rfl
  · rw [← table 2 rfl]
    rfl
  · rw [← table 7 rfl]
    rfl
  · apply apart 1 2 5 3 rfl rfl rfl rfl (by decide)
  · apply (missed 6 rfl).mpr rfl

end Program

end ByteTape
