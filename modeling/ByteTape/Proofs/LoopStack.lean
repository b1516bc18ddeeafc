import ByteTape.Proofs.Nesting
import ByteTape.Proofs.Transition
import Mathlib.Data.List.Nodup

/-!
# The loops that are being run are the loops that are open

The loops a machine is running are a matter of its position alone: they are the loops that
are open there (`Fits.inside`).  The one exception is a machine that has just gone back from
the end of a loop to its beginning and not tested the cell again (`Fits.back`).  It is still
running that loop, which is not open at its own beginning; but then the cell is not zero, so
the test will enter the loop and not pass over it with the loop still on the stack.

A step keeps this unless it meets a loop beginning without an end at a zero (`Fits.next`).
Hence it holds in every state that steps, changes of the options and further input lead to,
as long as no such fault has happened (`Reached.fits`).
-/

namespace ByteTape

namespace Machine

variable {program : Program} {options : Options} {last : Option Nat} {m m' : Machine}
  {outcome : Outcome}

/-- The loops that are being run fit the position, where `last` is the position of the
instruction that was executed last. -/
inductive Fits (program : Program) (last : Option Nat) (m : Machine) : Prop where
  /-- The loops that are being run are those that are open at the position. -/
  | inside (same : m.loops = program.openLoops m.position)
  /-- The machine went back to the beginning of a loop and will begin another round of it. -/
  | back {closing : Nat} (latest : last = some closing)
      (pair : program.Pairs m.position closing) (nonzero : m.store.tape.current ≠ 0)
      (again : m.loops = m.position :: program.openLoops m.position)

/-- The position of the instruction that was executed last, once a step has been made. -/
def latest (program : Program) (options : Options) (last : Option Nat) (m : Machine) :
    Option Nat :=
  if m.Executes program options then some m.position else last

/-! ### Where the machine is -/

theorem fits_initial (program : Program) (input : List UInt8) :
  Fits program none (.initial input)
  := .inside rfl

/-- Away from loop beginnings the loops that are being run are those that are open. -/
theorem Fits.loops_eq (fits : Fits program last m)
    (away : program[m.position]? ≠ some .loopStart) :
  m.loops = program.openLoops m.position
  := by
  cases fits with
  | inside same => apply same
  | back _ pair _ _ => apply absurd pair.lt.2.1 away

/-- Past the program the loops that are being run are the stray ones. -/
theorem Fits.loops_eq_of_size_le (fits : Fits program last m)
    (past : program.size ≤ m.position) :
  m.loops = program.openLoops program.size
  := by
  rw [← Program.openLoops_of_size_le past]
  apply fits.loops_eq
  simp [Array.getElem?_eq_none past]

/-- At a zero the loops that are being run are those that are open. -/
theorem Fits.loops_eq_of_zero (fits : Fits program last m)
    (zero : m.store.tape.current = 0) :
  m.loops = program.openLoops m.position
  := by
  cases fits with
  | inside same => apply same
  | back _ _ nonzero _ => apply absurd zero nonzero

/-- At a loop end the innermost loop that is being run is the one that ends there, and the
others are those around it. -/
theorem Fits.pairs (fits : Fits program last m) (here : program[m.position]? = some .loopEnd)
    {innermost : Nat} {outer : List Nat} (still : m.loops = innermost :: outer) :
  program.Pairs innermost m.position ∧ outer = program.openLoops innermost
  := by
  have same := fits.loops_eq (by simp [here])
  rw [still] at same
  have pair : program.Pairs innermost m.position := ⟨here, by simp [← same]⟩
  rw [pair.openLoops_finish] at same
  exact ⟨pair, (List.cons.inj same).2⟩

/-- A loop that is entered is put on the stack once, whether it is its first round or not. -/
theorem Fits.enter_eq (fits : Fits program last m)
    (here : program[m.position]? = some .loopStart) :
  enter m.position m.loops = program.openLoops (m.position + 1)
  := by
  rw [Program.openLoops_loopStart here]
  cases fits with
  | inside same =>
    rw [enter, same, if_neg]
    intro top
    apply Program.not_mem_openLoops_self m.position (List.mem_of_mem_head? top)
  | back _ _ _ again => rw [again, enter_same]

/-! ### What a step keeps -/

/-- An action, whether it fails or not, keeps the fit. -/
theorem Fits.act (fits : Fits program last m) {action : Action}
    (here : program[m.position]? = some (.act action)) (store : Store) (last' : Option Nat) :
  Fits program last' ⟨store, m.position + 1, m.loops, m.steps + 1⟩
  := by
  apply Fits.inside
  rw [fits.loops_eq (by simp [here]), Program.openLoops_act here]

/-- A step keeps the fit unless a loop turns out to have no end. -/
theorem Fits.next (fits : Fits program last m)
    (step : m.Transition program options m' outcome)
    (closed : ∀ position, outcome ≠ .failed ⟨.unclosedLoop, position⟩) :
  Fits program (latest program options last m) m'
  := by
  have executed {instruction : Instruction} (here : program[m.position]? = some instruction)
      (granted : options.exhausted m.steps = false) :
      latest program options last m = some m.position :=
    if_pos (executes_of_getElem? here granted)
  cases step with
  | halted past none =>
    have idle : ¬ m.Executes program options := fun e => Nat.not_lt.mpr past e.1
    rw [latest, if_neg idle]
    apply fits
  | leftOpen => apply absurd rfl (closed _)
  | refused inside exhausted =>
    have idle : ¬ m.Executes program options := by simp [Executes, exhausted]
    rw [latest, if_neg idle]
    apply fits
  | performed here granted effect => apply fits.act here
  | stopped here granted effect => apply fits.act here
  | skipped here granted zero found =>
    have pair := (Program.closing?_eq_some_iff here).mp found
    apply Fits.inside
    rw [fits.loops_eq_of_zero zero, pair.openLoops_succ_finish]
  | unended => apply absurd rfl (closed _)
  | entered here granted nonzero => exact .inside (fits.enter_eq here)
  | unbegun here granted none =>
    apply Fits.inside
    have same := fits.loops_eq (by simp [here])
    rw [Program.openLoops_loopEnd here, ← same, none]
    rfl
  | left here granted still zero =>
    obtain ⟨pair, around⟩ := fits.pairs here still
    apply Fits.inside
    rw [around, pair.openLoops_succ_finish]
  | repeated here granted still nonzero =>
    obtain ⟨pair, around⟩ := fits.pairs here still
    refine Fits.back (executed here granted) pair nonzero ?_
    rw [around]

/-- A running step keeps the fit. -/
theorem Fits.next_running (fits : Fits program last m)
    (step : m.Transition program options m' .running) :
  ∃ last', Fits program last' m'
  := ⟨_, fits.next step (fun _ h => Outcome.noConfusion h)⟩

/-- The input and the output have no part in the fit. -/
theorem Fits.exchange (fits : Fits program last m) (input : Input) (output : Output) :
  Fits program last { m with store := ⟨m.store.tape, input, output⟩ }
  := by
  cases fits with
  | inside same => exact .inside same
  | back latest pair nonzero again => exact .back latest pair nonzero again

/-! ### What the fit says about the stack -/

/-- The innermost loop begins last. -/
theorem Fits.decreasing (fits : Fits program last m) :
  m.loops.Pairwise (· > ·)
  := by
  cases fits with
  | inside same =>
    rw [same]
    apply Program.openLoops_decreasing
  | back _ pair _ again =>
    rw [again, ← Program.openLoops_loopStart pair.lt.2.1]
    apply Program.openLoops_decreasing

theorem Fits.openLoops_subset (fits : Fits program last m) :
  program.openLoops m.position ⊆ m.loops
  := by
  cases fits with
  | inside same => rw [same]; apply List.Subset.refl
  | back _ _ _ again =>
    rw [again]
    apply List.subset_cons_self

/-- Every open loop is on the stack once. -/
theorem Fits.count_eq_one (fits : Fits program last m) {start : Nat}
    (isOpen : start ∈ program.openLoops m.position) :
  m.loops.count start = 1
  := by
  apply List.count_eq_one_of_mem
  · apply fits.decreasing.imp
    intro p q after
    apply Nat.ne_of_gt after
  · apply fits.openLoops_subset isOpen

/-- The loops that are being run, read off the position. -/
theorem Fits.loops_eq_or (fits : Fits program last m) :
  m.loops = program.openLoops m.position ∨
    (∃ closing, last = some closing ∧ program.Pairs m.position closing) ∧
      program[m.position]? = some .loopStart ∧ m.store.tape.current ≠ 0 ∧
      m.loops = m.position :: program.openLoops m.position
  := by
  cases fits with
  | inside same => exact .inl same
  | back latest pair nonzero again => exact .inr ⟨⟨_, latest, pair⟩, pair.lt.2.1, nonzero, again⟩

/-- The stack is as high as loops are nested at the position, or, after going back, in the
loop that begins there. -/
theorem Fits.length_eq (fits : Fits program last m) :
  m.loops.length = (program.openLoops m.position).length ∨
    program[m.position]? = some .loopStart ∧
      m.loops.length = (program.openLoops (m.position + 1)).length
  := by
  cases fits with
  | inside same =>
    left
    rw [same]
  | back _ pair _ again =>
    right
    use pair.lt.2.1
    rw [again, Program.openLoops_loopStart pair.lt.2.1]

/-- The height of the stack is bounded by the position. -/
theorem Fits.length_le (fits : Fits program last m) :
  m.loops.length ≤ (program.openLoops m.position).length + 1
  := by
  obtain same | ⟨here, inner⟩ := fits.length_eq
  · rw [same]
    apply Nat.le_succ
  · rw [inner, Program.openLoops_loopStart here]
    apply Nat.le_refl

/-! ### The states that are reached -/

/-- `Reached program last m`: steps under any options, further input and flushes can lead from
the beginning of the program to `m`, where `last` is the position of the instruction that was
executed last.  No step has found a loop without an end; all other faults may have happened. -/
inductive Reached (program : Program) : Option Nat → Machine → Prop where
  | initial (input : List UInt8) :
    Reached program none (.initial input)
  | step {last : Option Nat} {m m' : Machine} {outcome : Outcome} (options : Options)
      (before : Reached program last m) (stepped : m.step program options = (m', outcome))
      (closed : ∀ position, outcome ≠ .failed ⟨.unclosedLoop, position⟩) :
    Reached program (latest program options last m) m'
  | feed {last : Option Nat} {m : Machine} (clear : Bool) (bytes : List UInt8)
      (before : Reached program last m) :
    Reached program last ((if clear then m.clearInput else m).feed bytes)
  | flush {last : Option Nat} {m : Machine} (before : Reached program last m) :
    Reached program last m.flush

theorem Reached.fits (reached : Reached program last m) :
  Fits program last m
  := by
  induction reached with
  | initial input => apply fits_initial
  | step options before stepped closed ih => apply ih.next (transition_of_step stepped) closed
  | feed clear bytes before ih =>
    cases clear with
    | false => apply ih.exchange (_ : Input) (_ : Output)
    | true => apply ih.exchange
  | flush before ih => apply ih.exchange

/-! ### The loops of a reached state -/

/-- In every reached state the loops that are being run are those that are open at the
position, innermost first; or the machine went back last, from the end of the loop that begins
at the position, the cell is not zero, and that loop lies on top of them.  So the stack is
ordered by where its loops begin, holds every open loop once, and is as high as loops are nested
there: how many rounds of them were run does not show. -/
theorem loops_of_reached (reached : Reached program last m) :
  (m.loops = program.openLoops m.position ∨
    (∃ closing, last = some closing ∧ program.Pairs m.position closing) ∧
      program[m.position]? = some .loopStart ∧ m.store.tape.current ≠ 0 ∧
      m.loops = m.position :: program.openLoops m.position) ∧
  m.loops.Pairwise (· > ·) ∧
  (∀ start ∈ program.openLoops m.position, m.loops.count start = 1) ∧
  (m.loops.length = (program.openLoops m.position).length ∨
    program[m.position]? = some .loopStart ∧
      m.loops.length = (program.openLoops (m.position + 1)).length) ∧
  m.loops.length ≤ (program.openLoops m.position).length + 1
  := by
  have fits := reached.fits
  use fits.loops_eq_or, fits.decreasing
  constructor
  · intro start isOpen
    apply fits.count_eq_one isOpen
  · exact ⟨fits.length_eq, fits.length_le⟩

/-- The program that counts to one and then runs an empty loop for ever. -/
def spin : Program :=
  #[.act .increment, .loopStart, .loopEnd]

/-- The state of that program each time it has gone back, apart from the count of steps. -/
def spinning (steps : UInt64) : Machine :=
  ⟨⟨Tape.blank.update (· + 1), .ofList [], .empty⟩, 1, [1], steps⟩

theorem current_spinning (steps : UInt64) :
  (spinning steps).store.tape.current ≠ 0
  := by
  simp [spinning, Tape.update]

theorem reached_spinning :
  Reached spin (some 2) (spinning 3)
  := by
  have counted : Reached spin (some 0) ⟨(spinning 1).store, 1, [], 1⟩ :=
    .step {} (.initial []) (Transition.step_eq (.performed rfl rfl rfl)) (by simp)
  have entered : Reached spin (some 1) ⟨(spinning 2).store, 2, [1], 2⟩ :=
    .step {} counted (Transition.step_eq (.entered rfl rfl (current_spinning 1))) (by simp)
  apply Reached.step {} entered
    (Transition.step_eq (.repeated rfl rfl rfl (current_spinning 2))) (by simp)

/-- A state in which the loop that is being run is not open at the position. -/
theorem loops_of_spinning :
  Reached spin (some 2) (spinning 3) ∧
  ((∃ closing, some 2 = some closing ∧ spin.Pairs 1 closing) ∧
    spin[1]? = some .loopStart ∧ (spinning 3).store.tape.current ≠ 0 ∧
    (spinning 3).loops = 1 :: spin.openLoops 1)
  := by
  use reached_spinning
  obtain same | back := (loops_of_reached reached_spinning).1
  · apply absurd same (by decide)
  · apply back

end Machine

end ByteTape
