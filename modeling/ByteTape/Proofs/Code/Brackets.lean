import ByteTape.Code
import ByteTape.Proofs.Nesting

/-!
# Programs whose brackets match are structured programs

A program that a sequence of actions and loops flattens to has a partner for every bracket, and
each of its loops begins and ends where the sequence says (`StandsAt.pairs`).  Conversely, a
program in which every bracket has a partner is flattened from a sequence, and from one only
(`Program.balanced_iff`, `Code.program_injective`).
-/

namespace ByteTape

namespace Code

variable {program : Program} {start : Nat}

/-- The instructions of a sequence stand in a program from a position on. -/
def StandsAt (program : Program) : Code → (start : Nat) → Prop
  | done, _ => True
  | act action rest, start =>
    program[start]? = some (.act action) ∧ rest.StandsAt program (start + 1)
  | loop body rest, start =>
    program[start]? = some .loopStart ∧ body.StandsAt program (start + 1) ∧
      program[start + body.size + 1]? = some .loopEnd ∧
      rest.StandsAt program (start + body.size + 2)

/-! ### The brackets of a sequence that stands in a program -/

/-- Behind a sequence the same loops are open as before it. -/
theorem StandsAt.openLoops_add {code : Code} (stands : code.StandsAt program start) :
  program.openLoops (start + code.size) = program.openLoops start
  := by
  induction code generalizing start with
  | done => rfl
  | act action rest ih =>
    obtain ⟨here, following⟩ := stands
    rw [size, ← Program.openLoops_act here, ← ih following]
    congr 1
    omega
  | loop body rest ihBody ihRest =>
    obtain ⟨here, inner, closing, following⟩ := stands
    have inside := ihBody inner
    rw [Nat.add_right_comm, Program.openLoops_loopStart here] at inside
    have behind : program.openLoops (start + body.size + 2) = program.openLoops start := by
      rw [Program.openLoops_loopEnd closing, inside]
      rfl
    rw [size, ← behind, ← ihRest following]
    congr 1
    omega

/-- A loop of a sequence that stands in a program is a pair of brackets of it. -/
theorem StandsAt.pairs {body rest : Code} (stands : (loop body rest).StandsAt program start) :
  program.Pairs start (start + body.size + 1)
  := by
  obtain ⟨here, inner, closing, -⟩ := stands
  use closing
  rw [Nat.add_right_comm, inner.openLoops_add, Program.openLoops_loopStart here]
  rfl

/-- A sequence brings no stray loop end into a program. -/
theorem StandsAt.not_strayEnd {code : Code} (stands : code.StandsAt program start) {q : Nat}
    (begun : start ≤ q) (below : q < start + code.size) :
  ¬ program.StrayEnd q
  := by
  induction code generalizing start with
  | done =>
    rw [size] at below
    omega
  | act action rest ih =>
    obtain ⟨here, following⟩ := stands
    rw [size] at below
    obtain rfl | after := Nat.eq_or_lt_of_le begun
    · rintro ⟨closing, -⟩
      simp [closing] at here
    · apply ih following after (by omega)
  | loop body rest ihBody ihRest =>
    have pair := stands.pairs
    obtain ⟨here, -, -, following⟩ := stands
    rw [size] at below
    obtain rfl | after := Nat.eq_or_lt_of_le begun
    · rintro ⟨closing, -⟩
      simp [closing] at here
    · obtain within | behind := Nat.lt_or_ge q (start + body.size + 2)
      · apply pair.not_strayEnd after (Nat.le_of_lt_succ within)
      · apply ihRest following behind (by omega)

/-! ### Sequences and programs -/

/-- A sequence stands where its instructions do. -/
theorem standsAt_of_drop {code : Code} {after : List Instruction}
    (spelled : program.toList.drop start = code.instructions ++ after) :
  code.StandsAt program start
  := by
  induction code generalizing start after with
  | done => trivial
  | act action rest ih =>
    constructor
    · have := congrArg List.head? spelled
      simpa [instructions] using this
    · have := congrArg (List.drop 1) spelled
      rw [List.drop_drop] at this
      apply ih this
  | loop body rest ihBody ihRest =>
    have inner := congrArg (List.drop 1) spelled
    simp only [List.drop_drop, instructions, List.cons_append, List.drop_succ_cons, List.drop_zero,
      List.append_assoc] at inner
    have closing := congrArg (List.drop body.size) inner
    rw [List.drop_drop, List.drop_left' (by simp)] at closing
    have following := congrArg (List.drop 1) closing
    rw [List.drop_drop] at following
    and_intros
    · have := congrArg List.head? spelled
      simpa [instructions] using this
    · apply ihBody inner
    · have := congrArg List.head? closing
      simpa [Nat.add_right_comm] using this
    · have := ihRest following
      rw [Nat.add_right_comm start] at this
      apply this

/-- A sequence stands at the beginning of the program that it flattens to. -/
theorem standsAt_program (code : Code) :
  code.StandsAt code.program 0
  := by
  have spelled : code.program.toList.drop 0 = code.instructions ++ [] := by simp [program]
  apply standsAt_of_drop spelled

theorem balanced_program (code : Code) :
  code.program.Balanced
  := by
  have stands := code.standsAt_program
  have size : 0 + code.size = code.program.size := by simp
  constructor
  · rintro q stray
    have inside := stray.lt
    rw [← size] at inside
    apply stands.not_strayEnd (Nat.zero_le q) inside stray
  · rw [← size, stands.openLoops_add]
    rfl

/-! ### The sequence of a program -/

/-- What follows a sequence: nothing, or a loop end and more. -/
def Closes (following : List Instruction) : Prop :=
  ∀ instruction ∈ following.head?, instruction = .loopEnd

theorem closes_nil :
  Closes []
  := by
  simp [Closes]

theorem closes_loopEnd (following : List Instruction) :
  Closes (.loopEnd :: following)
  := by
  simp [Closes]

theorem Closes.ne_cons {following more : List Instruction} {instruction : Instruction}
    (closes : Closes following) (other : instruction ≠ .loopEnd) :
  following ≠ instruction :: more
  := by
  rintro rfl
  apply other
  apply closes
  rfl

/-- Where a sequence stops can be told from the instructions, and so can the sequence. -/
theorem eq_of_instructions_append {code code' : Code} {following following' : List Instruction}
    (closes : Closes following) (closes' : Closes following')
    (same : code.instructions ++ following = code'.instructions ++ following') :
  code = code' ∧ following = following'
  := by
  induction code generalizing code' following following' with
  | done =>
    cases code' with
    | done => exact ⟨rfl, same⟩
    | act action' rest' => apply absurd same (closes.ne_cons (by simp))
    | loop body' rest' => apply absurd same (closes.ne_cons (by simp))
  | act action rest ih =>
    cases code' with
    | done => apply absurd same.symm (closes'.ne_cons (by simp))
    | act action' rest' =>
      simp only [instructions, List.cons_append, List.cons.injEq, Instruction.act.injEq] at same
      obtain ⟨rfl, same⟩ := same
      obtain ⟨rfl, rfl⟩ := ih closes closes' same
      exact ⟨rfl, rfl⟩
    | loop body' rest' => simp [instructions] at same
  | loop body rest ihBody ihRest =>
    cases code' with
    | done => apply absurd same.symm (closes'.ne_cons (by simp))
    | act action' rest' => simp [instructions] at same
    | loop body' rest' =>
      simp only [instructions, List.cons_append, List.cons.injEq, List.append_assoc,
        true_and] at same
      obtain ⟨rfl, behind⟩ := ihBody (closes_loopEnd _) (closes_loopEnd _) same
      obtain ⟨rfl, rfl⟩ := ihRest closes closes' (List.cons.inj behind).2
      exact ⟨rfl, rfl⟩

/-- A program is flattened from one sequence at most. -/
theorem program_injective {code code' : Code} (same : code.program = code'.program) :
  code = code'
  := by
  have same := congrArg Array.toList same
  simp only [program] at same
  apply (eq_of_instructions_append closes_nil closes_nil _).1
  simpa using same

end Code

namespace Program

variable {program : Program}

/-- If every bracket has a partner then the instructions from a position on are a sequence and,
for each loop that is open there, its end and a further sequence. -/
theorem Balanced.exists_codes (balanced : program.Balanced) {left k : Nat}
    (within : k + left = program.size) :
  ∃ (code : Code) (rests : List Code), rests.length = (program.openLoops k).length ∧
    program.toList.drop k
      = code.instructions ++ rests.flatMap (fun rest => .loopEnd :: rest.instructions)
  := by
  induction left generalizing k with
  | zero =>
    obtain rfl : k = program.size := within
    use .done, []
    simp [balanced.2, Code.instructions]
  | succ left ih =>
    have inside : k < program.size := by omega
    obtain ⟨code, rests, height, spelled⟩ := ih (k := k + 1) (by omega)
    have here := Array.getElem?_eq_getElem inside
    have drop : program.toList.drop k = program[k] :: program.toList.drop (k + 1) := by
      rw [List.drop_eq_getElem_cons (by simpa using inside), Array.getElem_toList]
    rw [drop, spelled]
    cases instruction : program[k] with
    | act action =>
      rw [instruction] at here
      use .act action code, rests
      rw [height, openLoops_act here]
      exact ⟨rfl, rfl⟩
    | loopStart =>
      rw [instruction] at here
      rw [openLoops_loopStart here] at height
      cases rests with
      | nil => cases height
      | cons rest rests =>
        use .loop code rest, rests
        simpa [Code.instructions] using height
    | loopEnd =>
      rw [instruction] at here
      use .done, code :: rests
      rw [openLoops_loopEnd here] at height
      constructor
      · cases opened : program.openLoops k with
        | nil => apply absurd ⟨here, opened⟩ (balanced.1 k)
        | cons start outer => simp [height, opened]
      · rfl

/-- Every bracket of a program has a partner exactly when the program is flattened from a
sequence of actions and loops. -/
theorem balanced_iff :
  program.Balanced ↔ ∃ code : Code, code.program = program
  := by
  constructor
  · intro balanced
    obtain ⟨code, rests, height, spelled⟩ := balanced.exists_codes (Nat.zero_add _)
    use code
    obtain rfl : rests = [] := List.eq_nil_of_length_eq_zero height
    apply Array.ext'
    simpa [Code.program] using spelled.symm
  · rintro ⟨code, rfl⟩
    apply code.balanced_program

end Program

end ByteTape
