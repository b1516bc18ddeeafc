import ByteTape.JumpTable
import ByteTape.Proofs.LoopStack

/-!
# Running a program by the table of its jumps

`JumpTable.ofProgram` gives each bracket of a program the partner that it is paired with
(`partner?_ofProgram`), and the last loop beginning without a partner is the innermost loop
that is open at the end of the program.

A machine without its loops is a `TableMachine` (`Machine.dropLoops`).  As long as the loops
of a machine fit its position, a step of the machine and a step by the table agree in all but
the loops, and so do runs (`run_dropLoops`).  The stack of loops and the search for the end of
a loop are therefore not needed: what a machine will do depends on its store, its position and
its count of steps, and not on how it got there.
-/

namespace ByteTape

namespace JumpTable

variable {program : Program} {k : Nat} {table : JumpTable}

/-! ### What the table says -/

/-- The table describes the first `k` instructions of a program. -/
structure Describes (program : Program) (k : Nat) (table : JumpTable) : Prop where
  size_partners : table.partners.size = k
  unclosed_eq : table.unclosed = program.openLoops k
  partner?_eq_some_iff : ∀ i j, table.partner? i = some j ↔
    program.Pairs i j ∧ j < k ∨ program.Pairs j i ∧ i < k

theorem describes_empty (program : Program) :
  Describes program 0 ⟨#[], []⟩
  where
  size_partners := rfl
  unclosed_eq := rfl
  partner?_eq_some_iff i j := by simp [partner?]

theorem partner?_push (table : JumpTable) (entry : Option Nat) (unclosed : List Nat) (i : Nat) :
  partner? ⟨table.partners.push entry, unclosed⟩ i
    = if i = table.partners.size then entry else table.partner? i
  := by
  simp only [partner?, Array.getElem?_push]
  split
  · rfl
  · rfl

theorem partner?_set (table : JumpTable) {start : Nat} (inside : start < table.partners.size)
    (entry : Option Nat) (i : Nat) :
  partner? ⟨table.partners.setIfInBounds start entry, table.unclosed⟩ i
    = if start = i then entry else table.partner? i
  := by
  simp only [partner?, Array.getElem?_setIfInBounds]
  split
  · rfl
  · rfl

/-- One more instruction makes no difference to the partner of a bracket that is neither the
new instruction nor paired with it. -/
theorem partners_succ_iff {i j : Nat} (earlier : i ≠ k)
    (apart : program.Pairs i j → j ≠ k) :
  (program.Pairs i j ∧ j < k ∨ program.Pairs j i ∧ i < k)
    ↔ program.Pairs i j ∧ j < k + 1 ∨ program.Pairs j i ∧ i < k + 1
  := by
  constructor
  · rintro (⟨pair, before⟩ | ⟨pair, before⟩)
    · exact .inl ⟨pair, Nat.lt_succ_of_lt before⟩
    · exact .inr ⟨pair, Nat.lt_succ_of_lt before⟩
  · rintro (⟨pair, before⟩ | ⟨pair, before⟩)
    · exact .inl ⟨pair, Nat.lt_of_le_of_ne (Nat.le_of_lt_succ before) (apart pair)⟩
    · exact .inr ⟨pair, Nat.lt_of_le_of_ne (Nat.le_of_lt_succ before) earlier⟩

/-- An instruction that has no partner among those before it. -/
theorem Describes.push_none (described : Describes program k table)
    (alone : ∀ start, ¬ program.Pairs start k) :
  Describes program (k + 1) ⟨table.partners.push none, program.openLoops (k + 1)⟩
  where
  size_partners := by
    rw [Array.size_push, described.size_partners]
  unclosed_eq := rfl
  partner?_eq_some_iff i j := by
    rw [partner?_push, described.size_partners]
    split
    · rename_i last
      subst last
      constructor
      · intro none
        cases none
      · rintro (⟨pair, before⟩ | ⟨pair, -⟩)
        · have := pair.lt.1
          omega
        · apply absurd pair (alone j)
    · rename_i earlier
      rw [described.partner?_eq_some_iff]
      apply partners_succ_iff earlier
      rintro pair rfl
      apply alone i pair

/-- A loop end, which becomes the partner of its partner. -/
theorem Describes.push_some (described : Describes program k table) {start : Nat}
    (pair : program.Pairs start k) :
  Describes program (k + 1)
    ⟨(table.partners.setIfInBounds start (some k)).push (some start),
      program.openLoops (k + 1)⟩
  where
  size_partners := by
    rw [Array.size_push, Array.size_setIfInBounds, described.size_partners]
  unclosed_eq := rfl
  partner?_eq_some_iff i j := by
    have inside : start < table.partners.size := by
      rw [described.size_partners]
      apply pair.lt.1
    rw [partner?_push ⟨_, table.unclosed⟩, partner?_set table inside, Array.size_setIfInBounds,
      described.size_partners]
    split
    · rename_i last
      subst last
      constructor
      · rintro ⟨⟩
        exact .inr ⟨pair, Nat.lt_succ_self i⟩
      · rintro (⟨after, before⟩ | ⟨same, -⟩)
        · have := after.lt.1
          omega
        · rw [pair.start_unique same]
    · rename_i earlier
      split
      · rename_i first
        subst first
        constructor
        · rintro ⟨⟩
          exact .inl ⟨pair, Nat.lt_succ_self k⟩
        · rintro (⟨same, -⟩ | ⟨other, -⟩)
          · rw [pair.finish_unique same]
          · have := other.1
            rw [pair.lt.2.1] at this
            cases this
      · rename_i other
        rw [described.partner?_eq_some_iff]
        apply partners_succ_iff earlier
        rintro pair' rfl
        apply other (pair.start_unique pair')

/-- The table for one more instruction describes one more instruction. -/
theorem Describes.record (described : Describes program k table) {instruction : Instruction}
    (here : program[k]? = some instruction) :
  Describes program (k + 1) (table.record instruction)
  := by
  have unclosed := described.unclosed_eq
  cases instruction with
  | act action =>
    rw [JumpTable.record, unclosed, ← Program.openLoops_act here]
    apply described.push_none
    intro start pair
    simp [pair.1] at here
  | loopStart =>
    rw [JumpTable.record, unclosed, described.size_partners, ← Program.openLoops_loopStart here]
    apply described.push_none
    intro start pair
    simp [pair.1] at here
  | loopEnd =>
    cases opened : program.openLoops k with
    | nil =>
      have after : program.openLoops (k + 1) = [] := by
        rw [Program.openLoops_loopEnd here, opened]
        rfl
      simp only [JumpTable.record, unclosed, opened]
      rw [← after]
      apply described.push_none
      intro start pair
      simp [pair.openLoops_finish] at opened
    | cons start outer =>
      have pair : program.Pairs start k := ⟨here, by simp [opened]⟩
      have after : program.openLoops (k + 1) = outer := by
        rw [Program.openLoops_loopEnd here, opened]
        rfl
      simp only [JumpTable.record, unclosed, opened, described.size_partners]
      rw [← after]
      apply described.push_some pair

/-- The table for a program describes all of it. -/
theorem describes_ofProgram (program : Program) :
  Describes program program.size (ofProgram program)
  := by
  rw [ofProgram]
  apply Array.foldl_induction (Describes program)
  · apply describes_empty
  · intro i table described
    apply described.record
    simp

/-- The partner of a bracket is the one it is paired with. -/
theorem partner?_ofProgram {i j : Nat} :
  (ofProgram program).partner? i = some j ↔ program.Pairs i j ∨ program.Pairs j i
  := by
  rw [(describes_ofProgram program).partner?_eq_some_iff]
  constructor
  · rintro (⟨pair, -⟩ | ⟨pair, -⟩)
    · exact .inl pair
    · exact .inr pair
  · rintro (pair | pair)
    · left
      use pair, pair.finish_lt
    · right
      use pair, pair.finish_lt

/-- The table knows of a loop beginning what the search for its end finds. -/
theorem partner?_of_loopStart {start : Nat} (here : program[start]? = some .loopStart) :
  (ofProgram program).partner? start = program.closing? (start + 1)
  := by
  apply Option.ext
  intro finish
  rw [partner?_ofProgram, Program.closing?_eq_some_iff here]
  constructor
  · rintro (pair | pair)
    · apply pair
    · simp [pair.1] at here
  · apply Or.inl

/-- The table knows of a loop end which loop is the innermost there. -/
theorem partner?_of_loopEnd {finish : Nat} (here : program[finish]? = some .loopEnd) :
  (ofProgram program).partner? finish = (program.openLoops finish).head?
  := by
  apply Option.ext
  intro start
  rw [partner?_ofProgram]
  constructor
  · rintro (pair | pair)
    · simp [pair.lt.2.1] at here
    · apply pair.2
  · intro top
    exact .inr ⟨here, top⟩

/-- The table knows which loop is the innermost at the end of the program. -/
theorem lastUnclosed?_ofProgram :
  (ofProgram program).lastUnclosed? = (program.openLoops program.size).head?
  := by
  rw [lastUnclosed?, (describes_ofProgram program).unclosed_eq]

end JumpTable

/-! ### Machines without their loops -/

/-- The machine without the loops that are being run. -/
def Machine.dropLoops (m : Machine) : TableMachine :=
  ⟨m.store, m.position, m.steps⟩

namespace TableMachine

variable {program : Program} {table : JumpTable} {options : Options}

/-- As long as steps are left, a step executes the instruction at the position. -/
theorem step_of_granted {t : TableMachine} {instruction : Instruction}
    (here : program[t.position]? = some instruction)
    (granted : options.exhausted t.steps = false) :
  t.step program table options = t.execute table options.eof instruction
  := by
  rw [step, here]
  simp [granted]

end TableMachine

namespace Machine

variable {program : Program} {options : Options} {last : Option Nat} {m m' : Machine}
  {outcome : Outcome}

/-- If the loops fit then the table knows of a loop end which loop is the innermost that is being
run. -/
theorem Fits.partner?_eq (fits : Fits program last m)
    (here : program[m.position]? = some .loopEnd) :
  (JumpTable.ofProgram program).partner? m.position = m.loops.head?
  := by
  rw [JumpTable.partner?_of_loopEnd here, fits.loops_eq]
  simp [here]

/-- If the loops fit then the table knows at the end of the program which loop is the innermost
that is being run. -/
theorem Fits.lastUnclosed?_eq (fits : Fits program last m) (past : program.size ≤ m.position) :
  (JumpTable.ofProgram program).lastUnclosed? = m.loops.head?
  := by
  rw [JumpTable.lastUnclosed?_ofProgram, fits.loops_eq_of_size_le past]

/-- If the loops fit then a step by the table is a step of the machine without its loops. -/
theorem Fits.step_dropLoops (fits : Fits program last m)
    (step : m.Transition program options m' outcome) :
  m.dropLoops.step program (.ofProgram program) options = (m'.dropLoops, outcome)
  := by
  cases step with
  | halted past closed =>
    rw [TableMachine.step, dropLoops, Array.getElem?_eq_none past]
    simp only [fits.lastUnclosed?_eq past, closed, List.head?_nil]
  | leftOpen past still =>
    rw [TableMachine.step, dropLoops, Array.getElem?_eq_none past]
    simp only [fits.lastUnclosed?_eq past, still, List.head?_cons]
  | refused inside exhausted =>
    rw [TableMachine.step, dropLoops, Array.getElem?_eq_getElem inside]
    simp only [exhausted, if_true]
  | performed here granted effect =>
    rw [TableMachine.step_of_granted here granted]
    simp only [TableMachine.execute, dropLoops, effect]
    rfl
  | stopped here granted effect =>
    rw [TableMachine.step_of_granted here granted]
    simp only [TableMachine.execute, dropLoops, effect]
    rfl
  | skipped here granted zero found =>
    rw [TableMachine.step_of_granted here granted]
    have partner := (JumpTable.partner?_of_loopStart here).trans found
    simp only [TableMachine.execute, dropLoops, zero, partner, if_true]
    rfl
  | unended here granted zero missing =>
    rw [TableMachine.step_of_granted here granted]
    have partner := (JumpTable.partner?_of_loopStart here).trans missing
    simp only [TableMachine.execute, dropLoops, zero, partner, if_true]
    rfl
  | entered here granted nonzero =>
    rw [TableMachine.step_of_granted here granted]
    simp only [TableMachine.execute, dropLoops, nonzero, if_false]
    rfl
  | unbegun here granted closed =>
    rw [TableMachine.step_of_granted here granted]
    have partner := fits.partner?_eq here
    rw [closed] at partner
    simp only [TableMachine.execute, dropLoops, partner, List.head?_nil]
    rfl
  | left here granted still zero =>
    rw [TableMachine.step_of_granted here granted]
    have partner := fits.partner?_eq here
    rw [still] at partner
    simp only [TableMachine.execute, dropLoops, partner, List.head?_cons, zero, if_true]
    rfl
  | repeated here granted still nonzero =>
    rw [TableMachine.step_of_granted here granted]
    have partner := fits.partner?_eq here
    rw [still] at partner
    simp only [TableMachine.execute, dropLoops, partner, List.head?_cons, nonzero, if_false]
    rfl

/-- How a run ended, without the loops. -/
def dropLoopsAtEnd (ending : Machine × Option Fault) : TableMachine × Option Fault :=
  (ending.1.dropLoops, ending.2)

/-- If the loops fit then a run by the table is a run of the machine without its loops. -/
theorem Fits.run_dropLoops (fits : Fits program last m) (fuel : Nat) :
  TableMachine.run program (.ofProgram program) options fuel m.dropLoops
    = (run program options fuel m).map dropLoopsAtEnd
  := by
  induction fuel generalizing last m with
  | zero => rfl
  | succ fuel ih =>
    cases stepped : m.step program options with
    | mk m' outcome =>
      have step := transition_of_step stepped
      rw [TableMachine.run, run, fits.step_dropLoops step, stepped]
      cases outcome with
      | running =>
        obtain ⟨last', fits'⟩ := fits.next_running step
        apply ih fits'
      | halted => rfl
      | failed fault => rfl

/-- A run of a program is a run by the table of its jumps, in all but the loops, which the table
does without.  The same is true of what a run goes on to do from any state that was reached, so
that it depends on the store, the position and the count of steps there and on nothing else that
happened before. -/
theorem run_by_table (program : Program) (options : Options) :
  (∀ (input : List UInt8) (fuel : Nat),
    (run program options fuel (.initial input)).map dropLoopsAtEnd
      = TableMachine.run program (.ofProgram program) options fuel (.initial input)) ∧
  ∀ {last : Option Nat} {m : Machine}, Reached program last m → ∀ fuel : Nat,
    (run program options fuel m).map dropLoopsAtEnd
      = TableMachine.run program (.ofProgram program) options fuel m.dropLoops
  := by
  constructor
  · intro input fuel
    symm
    apply (fits_initial program input).run_dropLoops
  · intro last m reached fuel
    symm
    apply reached.fits.run_dropLoops

/-- A run that goes on from a state in which the loops are not those that are open. -/
theorem run_spinning_by_table :
  Reached spin (some 2) (spinning 3) ∧
  (run spin ⟨.fail, 5⟩ 3 (spinning 3)).map dropLoopsAtEnd
    = some (⟨(spinning 5).store, 1, 5⟩, some ⟨.stepLimit, 1⟩)
  := by
  use reached_spinning
  rw [(run_by_table spin ⟨.fail, 5⟩).2 reached_spinning]
  rfl

end Machine

end ByteTape
