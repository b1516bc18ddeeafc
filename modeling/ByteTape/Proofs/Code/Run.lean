import ByteTape.Proofs.Code.Brackets
import ByteTape.Proofs.JumpTable

/-!
# Running a structured program

A program that a sequence of actions and loops flattens to runs as `Code.Ends` says.  Wherever
the sequence stands in a program, and whatever follows it there, a run that has come to it
passes through it in as many steps as `Ends` counts, with what `Ends` says for the store, and
goes on behind it or stops with the fault (`Ends.runFreely`).  Conversely, a run that has come
to the sequence and does end leads to an end of the sequence (`exists_ends`).  The converse is
by induction on what is left of the run, since a loop may take any number of rounds.

Both are about runs by the table of jumps, in which nothing has to be said of the loops that are
being run.
-/

namespace ByteTape

/-- What a run leaves of the store that its last step led to: without a fault, all output has
been handed over. -/
def Store.atEnd (store : Store) : Option Fault → Store
  | none => store.flush
  | some _ => store

namespace Code

variable {program : Program} {eof : EofPolicy} {fuel position : Nat} {s s' t : Store}
  {k : UInt64}

/-- A run by the table of jumps in which any number of steps may be made. -/
def runFreely (program : Program) (eof : EofPolicy) :
    (fuel : Nat) → TableMachine → Option (TableMachine × Option Fault) :=
  TableMachine.run program (.ofProgram program) ⟨eof, 0⟩

/-- A run in which a sequence has ended: it goes on unless there was a fault. -/
def proceed (program : Program) (eof : EofPolicy) (fuel : Nat) (m : TableMachine) :
    Option Fault → Option (TableMachine × Option Fault)
  | none => runFreely program eof fuel m
  | some fault => some (m, some fault)

/-! ### The first step of a run -/

/-- A run executes the instruction at its position and goes on unless that fails. -/
theorem runFreely_succ (fault : Option Fault) {instruction : Instruction}
    (here : program[position]? = some instruction) {m : TableMachine}
    (execution : TableMachine.execute (.ofProgram program) eof ⟨s, position, k⟩ instruction
      = (m, fault.elim .running .failed)) :
  runFreely program eof (fuel + 1) ⟨s, position, k⟩ = proceed program eof fuel m fault
  := by
  have granted : Options.exhausted ⟨eof, 0⟩ k = false := Options.exhausted_unlimited eof k
  rw [runFreely, TableMachine.run, TableMachine.step_of_granted here granted, execution]
  cases fault with
  | none => rfl
  | some fault => rfl

theorem runFreely_act {action : Action} (here : program[position]? = some (.act action))
    {kind : Option FaultKind} (effect : s.perform eof action = (s', kind)) :
  runFreely program eof (fuel + 1) ⟨s, position, k⟩
    = proceed program eof fuel ⟨s', position + 1, k + 1⟩ (kind.map (⟨·, position⟩))
  := by
  apply runFreely_succ _ here
  simp only [TableMachine.execute, effect]
  cases kind with
  | none => rfl
  | some kind => rfl

theorem runFreely_skip {closing : Nat} (pair : program.Pairs position closing)
    (zero : s.tape.current = 0) :
  runFreely program eof (fuel + 1) ⟨s, position, k⟩
    = runFreely program eof fuel ⟨s, closing + 1, k + 1⟩
  := by
  have partner := JumpTable.partner?_ofProgram.mpr (.inl pair)
  apply runFreely_succ none pair.lt.2.1
  simp only [TableMachine.execute, zero, partner, if_true]
  rfl

theorem runFreely_enter (here : program[position]? = some .loopStart)
    (nonzero : s.tape.current ≠ 0) :
  runFreely program eof (fuel + 1) ⟨s, position, k⟩
    = runFreely program eof fuel ⟨s, position + 1, k + 1⟩
  := by
  apply runFreely_succ none here
  simp only [TableMachine.execute, nonzero, if_false]
  rfl

theorem runFreely_leave {beginning : Nat} (pair : program.Pairs beginning position)
    (zero : s.tape.current = 0) :
  runFreely program eof (fuel + 1) ⟨s, position, k⟩
    = runFreely program eof fuel ⟨s, position + 1, k + 1⟩
  := by
  have partner := JumpTable.partner?_ofProgram.mpr (.inr pair)
  apply runFreely_succ none pair.1
  simp only [TableMachine.execute, zero, partner, if_true]
  rfl

theorem runFreely_repeat {beginning : Nat} (pair : program.Pairs beginning position)
    (nonzero : s.tape.current ≠ 0) :
  runFreely program eof (fuel + 1) ⟨s, position, k⟩
    = runFreely program eof fuel ⟨s, beginning, k + 1⟩
  := by
  have partner := JumpTable.partner?_ofProgram.mpr (.inr pair)
  apply runFreely_succ none pair.1
  simp only [TableMachine.execute, nonzero, partner, if_false]
  rfl

/-- At its end a program whose brackets match halts. -/
theorem runFreely_end (balanced : program.Balanced) :
  runFreely program eof (fuel + 1) ⟨s, program.size, k⟩
    = some (⟨s.flush, program.size, k⟩, none)
  := by
  rw [runFreely, TableMachine.run, TableMachine.step, Array.getElem?_eq_none (Nat.le_refl _)]
  simp only [JumpTable.lastUnclosed?_ofProgram, balanced.2, List.head?_nil]
  rfl

/-! ### Passing through a sequence -/

/-- Counting some steps and then some more counts all of them, also when the count starts again
from zero. -/
theorem count_add (k : UInt64) (n m : Nat) :
  k + UInt64.ofNat n + UInt64.ofNat m = k + UInt64.ofNat (n + m)
  := by
  rw [UInt64.ofNat_add, UInt64.add_assoc]

theorem count_succ (k : UInt64) (n : Nat) :
  k + 1 + UInt64.ofNat n = k + UInt64.ofNat (n + 1)
  := by
  rw [Nat.add_comm]
  apply count_add k 1 n

/-- A round of a loop, from the test of the cell to the end of the loop, given what its body
does.  It leads behind the loop or back to its beginning. -/
theorem runFreely_round {body rest : Code} {start n : Nat}
    (stands : (loop body rest).StandsAt program start) (nonzero : s.tape.current ≠ 0)
    (passed : runFreely program eof (n + (fuel + 1)) ⟨s, start + 1, k + 1⟩
      = runFreely program eof (fuel + 1) ⟨s', start + 1 + body.size, k + 1 + UInt64.ofNat n⟩) :
  runFreely program eof (n + 2 + fuel) ⟨s, start, k⟩
    = runFreely program eof fuel
      ⟨s', if s'.tape.current = 0 then start + body.size + 2 else start,
        k + UInt64.ofNat (n + 2)⟩
  := by
  have pair := stands.pairs
  obtain ⟨here, -, -, -⟩ := stands
  have steps : n + 2 + fuel = n + (fuel + 1) + 1 := by omega
  rw [steps, runFreely_enter here nonzero, passed, Nat.add_right_comm start, count_succ]
  split
  · rename_i zero
    rw [runFreely_leave pair zero]
    congr 2
    apply count_add k (n + 1) 1
  · rename_i again
    rw [runFreely_repeat pair again]
    congr 2
    apply count_add k (n + 1) 1

/-- A run that has come to a sequence passes through it as the sequence ends. -/
theorem Ends.runFreely {code : Code} {start n : Nat} {fault : Option Fault}
    (ends : Ends eof code start s n t fault) (stands : code.StandsAt program start) (fuel : Nat)
    (k : UInt64) :
  ∃ behind, (fault = none → behind = start + code.size) ∧
    runFreely program eof (n + fuel) ⟨s, start, k⟩
      = proceed program eof fuel ⟨t, behind, k + UInt64.ofNat n⟩ fault
  := by
  induction ends generalizing fuel k with
  | @done start s =>
    use start, fun _ => rfl
    rw [Nat.zero_add]
    apply congrArg (Code.runFreely program eof fuel ⟨s, start, ·⟩) (UInt64.add_zero k).symm
  | @act action rest start n s s' t fault performed following ih =>
    obtain ⟨here, after⟩ := stands
    obtain ⟨behind, place, passed⟩ := ih after fuel (k + 1)
    use behind
    constructor
    · intro none
      rw [place none, size]
      omega
    · rw [Nat.add_right_comm, runFreely_act here performed, ← count_succ, ← passed]
      rfl
  | @actFails action rest start s t kind failed =>
    obtain ⟨here, -⟩ := stands
    use start + 1
    constructor
    · intro none
      cases none
    · rw [Nat.add_comm, runFreely_act here failed]
      rfl
  | @loopSkipped body rest start n s t fault zero following ih =>
    have pair := stands.pairs
    obtain ⟨-, -, -, after⟩ := stands
    obtain ⟨behind, place, passed⟩ := ih after fuel (k + 1)
    use behind
    constructor
    · intro none
      rw [place none, size]
      omega
    · rw [Nat.add_right_comm, runFreely_skip pair zero, ← count_succ, ← passed]
  | @loopFails body rest start n s t fault nonzero round ih =>
    obtain ⟨here, inner, -, -⟩ := stands
    obtain ⟨behind, -, passed⟩ := ih inner fuel (k + 1)
    use behind
    constructor
    · intro none
      cases none
    · rw [Nat.add_right_comm, runFreely_enter here nonzero, ← count_succ, ← passed]
  | @loopLast body rest start n m s s' t fault nonzero round zero following ihRound ih =>
    obtain ⟨closing, close, passed⟩ := ihRound stands.2.1 (m + fuel + 1) (k + 1)
    obtain ⟨behind, place, passed'⟩ := ih stands.2.2.2 fuel (k + UInt64.ofNat (n + 2))
    rw [close rfl] at passed
    use behind
    constructor
    · intro none
      rw [place none, size]
      omega
    · rw [Nat.add_assoc, runFreely_round stands nonzero passed, if_pos zero, passed', count_add]
  | @loopAgain body rest start n m s s' t fault nonzero round again following ihRound ih =>
    obtain ⟨closing, close, passed⟩ := ihRound stands.2.1 (m + fuel + 1) (k + 1)
    obtain ⟨behind, place, passed'⟩ := ih stands fuel (k + UInt64.ofNat (n + 2))
    rw [close rfl] at passed
    use behind, place
    rw [Nat.add_assoc, runFreely_round stands nonzero passed, if_neg again, passed', count_add]

/-- If a run that has come to a sequence does end then so does the sequence. -/
theorem exists_ends {code : Code} {start : Nat} (stands : code.StandsAt program start)
    (ended : (Code.runFreely program eof fuel ⟨s, start, k⟩).isSome) :
  ∃ n t fault, n ≤ fuel ∧ Ends eof code start s n t fault
  := by
  induction fuel using Nat.strongRecOn generalizing code start s k with | ind fuel ih =>
  cases code with
  | done =>
    use 0, s, none, Nat.zero_le fuel
    constructor
  | act action rest =>
    cases fuel with
    | zero => cases ended
    | succ fuel =>
      obtain ⟨here, after⟩ := stands
      cases effect : s.perform eof action with
      | mk s' kind =>
        rw [runFreely_act here effect] at ended
        cases kind with
        | none =>
          obtain ⟨n, t, fault, most, following⟩ := ih fuel (Nat.lt_succ_self fuel) after ended
          use n + 1, t, fault, Nat.succ_le_succ most
          apply Ends.act effect following
        | some kind =>
          use 1, s', some ⟨kind, start⟩, Nat.succ_pos fuel
          apply Ends.actFails effect
  | loop body rest =>
    cases fuel with
    | zero => cases ended
    | succ fuel =>
      by_cases zero : s.tape.current = 0
      · rw [runFreely_skip stands.pairs zero] at ended
        obtain ⟨n, t, fault, most, following⟩ :=
          ih fuel (Nat.lt_succ_self fuel) stands.2.2.2 ended
        use n + 1, t, fault, Nat.succ_le_succ most
        apply Ends.loopSkipped zero following
      · have entered := ended
        rw [runFreely_enter stands.1 zero] at entered
        obtain ⟨n, s', fault, most, round⟩ := ih fuel (Nat.lt_succ_self fuel) stands.2.1 entered
        cases fault with
        | some fault =>
          use n + 1, s', some fault, Nat.succ_le_succ most
          apply Ends.loopFails zero round
        | none =>
          -- What the body leaves of the run makes at least the step at the end of the loop.
          obtain ⟨left, rfl⟩ := Nat.exists_eq_add_of_le most
          obtain ⟨closing, close, passed⟩ := round.runFreely stands.2.1 left (k + 1)
          rw [close rfl] at passed
          cases left with
          | zero =>
            rw [passed] at entered
            cases entered
          | succ left =>
            have steps : n + (left + 1) + 1 = n + 2 + left := by omega
            have fewer : left < n + (left + 1) + 1 := by omega
            rw [steps, runFreely_round stands zero passed] at ended
            split at ended
            · rename_i last
              obtain ⟨m, t, fault, more, following⟩ := ih left fewer stands.2.2.2 ended
              use n + 2 + m, t, fault
              constructor
              · omega
              · apply Ends.loopLast zero round last following
            · rename_i again
              obtain ⟨m, t, fault, more, following⟩ := ih left fewer stands ended
              use n + 2 + m, t, fault
              constructor
              · omega
              · apply Ends.loopAgain zero round again following

/-! ### Running the program of a sequence -/

/-- If a sequence ends then so does a run by the table of the program that it flattens to. -/
theorem Ends.runFreely_program {code : Code} {input : List UInt8} {n : Nat}
    {fault : Option Fault} (ends : Ends eof code 0 (.initial input) n t fault) :
  ∃ position, Code.runFreely code.program eof (n + 1) (.initial input)
    = some (⟨t.atEnd fault, position, UInt64.ofNat n⟩, fault)
  := by
  obtain ⟨behind, place, passed⟩ := ends.runFreely code.standsAt_program 1 0
  use behind
  rw [TableMachine.initial, passed, UInt64.zero_add]
  cases fault with
  | none =>
    rw [place rfl, Nat.zero_add, ← size_program]
    apply runFreely_end code.balanced_program
  | some fault => rfl

end Code

namespace Machine

variable {program : Program} {eof : EofPolicy} {code : Code} {input : List UInt8} {fuel : Nat}
  {fault : Option Fault}

theorem runFreely_initial (program : Program) (eof : EofPolicy) (input : List UInt8)
    (fuel : Nat) :
  Code.runFreely program eof fuel (.initial input)
    = (run program ⟨eof, 0⟩ fuel (.initial input)).map dropLoopsAtEnd
  := by
  apply (fits_initial program input).run_dropLoops

/-- If a sequence ends then so does a run of the program that it flattens to. -/
theorem run_of_ends {n : Nat} {t : Store}
    (ends : code.Ends eof 0 (.initial input) n t fault) :
  ∃ m, run code.program ⟨eof, 0⟩ (n + 1) (.initial input) = some (m, fault) ∧
    m.store = t.atEnd fault ∧ m.steps = UInt64.ofNat n
  := by
  obtain ⟨position, ended⟩ := ends.runFreely_program
  rw [runFreely_initial, Option.map_eq_some_iff] at ended
  obtain ⟨⟨m, fault'⟩, ended, same⟩ := ended
  obtain ⟨same, rfl⟩ := Prod.mk.inj same
  use m, ended
  constructor
  · apply congrArg TableMachine.store same
  · apply congrArg TableMachine.steps same

/-- If a run of the program that a sequence flattens to ends then so does the sequence, in the
same way. -/
theorem ends_of_run {m : Machine}
    (ended : run code.program ⟨eof, 0⟩ fuel (.initial input) = some (m, fault)) :
  ∃ n t, code.Ends eof 0 (.initial input) n t fault ∧
    m.store = t.atEnd fault ∧ m.steps = UInt64.ofNat n
  := by
  have some : (Code.runFreely code.program eof fuel (.initial input)).isSome := by
    rw [runFreely_initial, ended]
    rfl
  obtain ⟨n, t, fault', -, ends⟩ := Code.exists_ends code.standsAt_program some
  obtain ⟨m', ended', store, steps⟩ := run_of_ends ends
  obtain ⟨rfl, rfl⟩ := Prod.mk.inj (run_unique ended ended')
  use n, t, ends, store, steps

/-- A program whose brackets match is a sequence of actions and loops, and of one only.  A run
of it without a limit ends exactly if the sequence does, and then with the same fault or
without one, with the same store and after the same number of steps, counted by a 64-bit
number.  If the sequence has no end then the run has none. -/
theorem run_of_balanced (balanced : program.Balanced) :
  ∃ code : Code,
    (code.program = program ∧ ∀ code' : Code, code'.program = program → code' = code) ∧
    ∀ (eof : EofPolicy) (input : List UInt8),
      (∀ (fault : Option Fault) (store : Store) (steps : UInt64),
        (∃ fuel m, run program ⟨eof, 0⟩ fuel (.initial input) = some (m, fault) ∧
            m.store = store ∧ m.steps = steps)
          ↔ ∃ n t, code.Ends eof 0 (.initial input) n t fault ∧
            t.atEnd fault = store ∧ UInt64.ofNat n = steps) ∧
      ((∀ n t fault, ¬ code.Ends eof 0 (.initial input) n t fault) →
        ∀ fuel, run program ⟨eof, 0⟩ fuel (.initial input) = none)
  := by
  obtain ⟨code, rfl⟩ := Program.balanced_iff.mp balanced
  use code
  constructor
  · use rfl
    intro code' same
    apply Code.program_injective same
  · intro eof input
    constructor
    · intro fault store steps
      constructor
      · rintro ⟨fuel, m, ended, rfl, rfl⟩
        obtain ⟨n, t, ends, store, steps⟩ := ends_of_run ended
        use n, t, ends, store.symm, steps.symm
      · rintro ⟨n, t, ends, rfl, rfl⟩
        use n + 1
        apply run_of_ends ends
    · intro endless fuel
      rw [Option.eq_none_iff_forall_ne_some]
      rintro ⟨m, fault⟩ ended
      obtain ⟨n, t, ends, -⟩ := ends_of_run ended
      apply endless n t fault ends

/-- The program `++[[-]]`, with a loop in a loop. -/
def clearing : Code :=
  .act .increment (.act .increment (.loop (.loop (.act .decrement .done) .done) .done))

/-- The outer loop runs for one round, the inner loop for two, and the cell is zero then. -/
theorem run_of_balanced_clearing :
  clearing.program.Balanced ∧
  ∃ n t, clearing.Ends .fail 0 (.initial []) n t none ∧ UInt64.ofNat n = 10 ∧
    t.tape.current = 0
  := by
  use clearing.balanced_program
  obtain ⟨code, ⟨-, only⟩, agree⟩ := run_of_balanced clearing.balanced_program
  obtain rfl : clearing = code := only clearing rfl
  obtain ⟨n, t, ends, store, steps⟩ := ((agree .fail []).1 none _ 10).mp
    ⟨11, _, rfl, rfl, rfl⟩
  use n, t, ends, steps
  have current := congrArg (·.tape.current) store
  apply current.trans rfl

end Machine

end ByteTape
