import ByteTape.Proofs.Nesting
import ByteTape.Proofs.Transition

/-!
# When a step fails

A step fails in a few cases only, and `Machine.Fails` lists them in terms of the state before it.
Two of them are asked about before an instruction is executed: whether the program has ended
inside a loop, and, if it has not ended, whether the steps are used up.  The others depend on the
instruction.

A failed step changes as little as it can (`fault_of_step`).  The tape, the loops that are being
run, what was written and what is unread stay as they were.  If an instruction was executed then it
has been passed and counted; if it was a read then the output was flushed for it.
-/

namespace ByteTape

/-! ### Actions that fail -/

namespace Store

variable {store store' : Store} {eof : EofPolicy} {kind : FaultKind} {action : Action}

/-- A move fails if there is no cell to move to, and does nothing then. -/
theorem move_failed_iff {f : Tape → Option Tape} :
  store.move f = (store', some kind) ↔
    f store.tape = none ∧ kind = .offTape ∧ store' = store
  := by
  obtain ⟨tape, input, output⟩ := store
  cases moved : f tape <;> simp [move, moved, eq_comm, and_comm]

/-- A read fails if the end of the input is a fault and has been reached.  It leaves nothing
but the mark that it was there, and a flush. -/
theorem read_failed_iff :
  store.read eof = (store', some kind) ↔
    (eof = .fail ∧ (store.input.unread = [] ∨ store.input.ended = true)) ∧ kind = .endOfInput ∧
      store' = ⟨store.tape, ⟨store.input.unread, true⟩, store.output.flush⟩
  := by
  obtain ⟨tape, ⟨unread, ended⟩, output⟩ := store
  rcases unread with _ | ⟨byte, rest⟩
  · cases eof <;> simp [read_eq, eq_comm, and_comm]
  · cases ended <;> cases eof <;> simp [read_eq, eq_comm, and_comm]

/-- An action fails at an end of the tape or at the end of the input. -/
theorem perform_failed_iff :
  store.perform eof action = (store', some kind) ↔
    ((action = .right ∧ store.tape.head.val + 1 = Tape.size ∨
        action = .left ∧ store.tape.head.val = 0) ∧ kind = .offTape ∧ store' = store) ∨
      action = .read ∧ (eof = .fail ∧ (store.input.unread = [] ∨ store.input.ended = true)) ∧
        kind = .endOfInput ∧ store' = ⟨store.tape, ⟨store.input.unread, true⟩, store.output.flush⟩
  := by
  cases action with
  | right => simp [perform_right, move_failed_iff, Tape.moveRight?_eq_none_iff]
  | left => simp [perform_left, move_failed_iff, Tape.moveLeft?_eq_none_iff]
  | read => simp [perform_read, read_failed_iff]
  | increment => simp [perform_increment]
  | decrement => simp [perform_decrement]
  | write => simp [perform_write]

end Store

namespace Machine

variable {program : Program} {options : Options} {m m' : Machine} {fault : Fault}

/-- `m.Fails program options fault`: the state before a step that fails with `fault`. -/
inductive Fails (program : Program) (options : Options) (m : Machine) : Fault → Prop where
  /-- The program has ended inside a loop. -/
  | leftOpen {innermost : Nat} {outer : List Nat} (past : program.size ≤ m.position)
      (still : m.loops = innermost :: outer) :
    Fails program options m ⟨.unclosedLoop, innermost⟩
  /-- The program has not ended, and the steps are used up. -/
  | refused (inside : m.position < program.size) (limited : options.maxSteps ≠ 0)
      (used : options.maxSteps ≤ m.steps) :
    Fails program options m ⟨.stepLimit, m.position⟩
  /-- The head is to move right from the last cell. -/
  | offRight (granted : options.exhausted m.steps = false)
      (here : program[m.position]? = some (.act .right))
      (last : m.store.tape.head.val + 1 = Tape.size) :
    Fails program options m ⟨.offTape, m.position⟩
  /-- The head is to move left from the first cell. -/
  | offLeft (granted : options.exhausted m.steps = false)
      (here : program[m.position]? = some (.act .left))
      (first : m.store.tape.head.val = 0) :
    Fails program options m ⟨.offTape, m.position⟩
  /-- A byte is to be read at the end of the input, and that is a fault. -/
  | endOfInput (granted : options.exhausted m.steps = false)
      (here : program[m.position]? = some (.act .read)) (strict : options.eof = .fail)
      (ended : m.store.input.unread = [] ∨ m.store.input.ended = true) :
    Fails program options m ⟨.endOfInput, m.position⟩
  /-- A loop is to be passed over that has no end. -/
  | unclosed (granted : options.exhausted m.steps = false)
      (here : program[m.position]? = some .loopStart) (zero : m.store.tape.current = 0)
      (unpaired : ∀ finish, ¬ program.Pairs m.position finish) :
    Fails program options m ⟨.unclosedLoop, m.position⟩
  /-- A loop is to end, and none is being run. -/
  | unopened (granted : options.exhausted m.steps = false)
      (here : program[m.position]? = some .loopEnd) (closed : m.loops = []) :
    Fails program options m ⟨.unopenedLoop, m.position⟩

theorem exhausted_eq_true_iff {steps : UInt64} :
  options.exhausted steps = true ↔ options.maxSteps ≠ 0 ∧ options.maxSteps ≤ steps
  := by
  simp [Options.exhausted]

/-- A step that fails does so for one of the reasons listed. -/
theorem Transition.fails (step : m.Transition program options m' (.failed fault)) :
  m.Fails program options fault
  := by
  cases step with
  | leftOpen past still => apply Fails.leftOpen past still
  | refused inside exhausted =>
    obtain ⟨limited, used⟩ := exhausted_eq_true_iff.mp exhausted
    apply Fails.refused inside limited used
  | stopped here granted effect =>
    obtain ⟨⟨rfl, last⟩ | ⟨rfl, first⟩, rfl, -⟩ | ⟨rfl, ⟨strict, ended⟩, rfl, -⟩ :=
      Store.perform_failed_iff.mp effect
    · apply Fails.offRight granted here last
    · apply Fails.offLeft granted here first
    · apply Fails.endOfInput granted here strict ended
  | unended here granted zero missing =>
    apply Fails.unclosed granted here zero ((Program.closing?_eq_none_iff here).mp missing).2
  | unbegun here granted closed => apply Fails.unopened granted here closed

/-- For each of the reasons listed a step fails. -/
theorem Fails.exists_transition (fails : m.Fails program options fault) :
  ∃ m', m.Transition program options m' (.failed fault)
  := by
  cases fails with
  | leftOpen past still => exact ⟨_, .leftOpen past still⟩
  | refused inside limited used =>
    exact ⟨_, .refused inside (exhausted_eq_true_iff.mpr ⟨limited, used⟩)⟩
  | offRight granted here last =>
    exact ⟨_, .stopped here granted (Store.perform_failed_iff.mpr
      (.inl ⟨.inl ⟨rfl, last⟩, rfl, rfl⟩))⟩
  | offLeft granted here first =>
    exact ⟨_, .stopped here granted (Store.perform_failed_iff.mpr
      (.inl ⟨.inr ⟨rfl, first⟩, rfl, rfl⟩))⟩
  | endOfInput granted here strict ended =>
    exact ⟨_, .stopped here granted (Store.perform_failed_iff.mpr
      (.inr ⟨rfl, ⟨strict, ended⟩, rfl, rfl⟩))⟩
  | unclosed granted here zero unpaired =>
    exact ⟨_, .unended here granted zero ((Program.closing?_eq_none_iff here).mpr ⟨here, unpaired⟩)⟩
  | unopened granted here closed => exact ⟨_, .unbegun here granted closed⟩

theorem step_eq_failed_iff :
  (m.step program options).2 = .failed fault ↔ m.Fails program options fault
  := by
  constructor
  · intro failed
    have stepped : m.step program options = (_, .failed fault) := Prod.ext rfl failed
    apply (transition_of_step stepped).fails
  · intro fails
    obtain ⟨m', step⟩ := fails.exists_transition
    rw [step.step_eq]

/-! ### What a failed step leaves -/

/-- A failed step keeps all of the store but the mark at the end of the input and the account of
flushes. -/
theorem Transition.store_of_failed (step : m.Transition program options m' (.failed fault)) :
  m'.store = if fault.kind = .endOfInput then
      ⟨m.store.tape, ⟨m.store.input.unread, true⟩, m.store.output.flush⟩ else m.store
  := by
  cases step with
  | leftOpen past still => rfl
  | refused inside exhausted => rfl
  | stopped here granted effect =>
    obtain ⟨-, rfl, rfl⟩ | ⟨-, -, rfl, rfl⟩ := Store.perform_failed_iff.mp effect
    · rfl
    · rfl
  | unended here granted zero missing => rfl
  | unbegun here granted closed => rfl

/-- A failed step keeps the loops that are being run. -/
theorem Transition.loops_of_failed (step : m.Transition program options m' (.failed fault)) :
  m'.loops = m.loops
  := by
  cases step with
  | leftOpen past still => rfl
  | refused inside exhausted => rfl
  | stopped here granted effect => rfl
  | unended here granted zero missing => rfl
  | unbegun here granted closed => exact closed.symm

/-- A failed step passes and counts the instruction that it has executed, if it got that far. -/
theorem Transition.progress_of_failed (step : m.Transition program options m' (.failed fault)) :
  if program.size ≤ m.position ∨ fault.kind = .stepLimit then
    m'.position = m.position ∧ m'.steps = m.steps
  else
    m'.position = m.position + 1 ∧ m'.steps = m.steps + 1
  := by
  have inside {instruction : Instruction} (here : program[m.position]? = some instruction) :
      ¬ program.size ≤ m.position := by
    obtain ⟨inside, -⟩ := Array.getElem?_eq_some_iff.mp here
    apply Nat.not_le.mpr inside
  cases step with
  | leftOpen past still => simp [past]
  | refused below exhausted => simp
  | stopped here granted effect =>
    obtain ⟨-, rfl, -⟩ | ⟨-, -, rfl, -⟩ := Store.perform_failed_iff.mp effect
    · simp [inside here]
    · simp [inside here]
  | unended here granted zero missing => simp [inside here]
  | unbegun here granted closed => simp [inside here]

/-- A step fails exactly for the reasons that `Fails` lists, whatever the state is.  The tape and
its head, the loops that are being run, the bytes written and those unread are then as they were.
The position and the count of steps are as they were if no instruction was executed, because the
program had ended or the steps were used up, and both have gone up by one otherwise.  No failed
step but a read has flushed the output. -/
theorem fault_of_step (program : Program) (options : Options) (m : Machine) :
  (∀ fault, (m.step program options).2 = .failed fault ↔ m.Fails program options fault) ∧
  ∀ m' fault, m.step program options = (m', .failed fault) →
    m'.store.tape = m.store.tape ∧ m'.loops = m.loops ∧
    m'.store.output.bytes = m.store.output.bytes ∧
    m'.store.input.unread = m.store.input.unread ∧
    (if program.size ≤ m.position ∨ fault.kind = .stepLimit then
      m'.position = m.position ∧ m'.steps = m.steps
    else
      m'.position = m.position + 1 ∧ m'.steps = m.steps + 1) ∧
    m'.store.output.flushes =
      m.store.output.flushes + if fault.kind = .endOfInput then 1 else 0
  := by
  constructor
  · intro fault
    apply step_eq_failed_iff
  · intro m' fault stepped
    have step := transition_of_step stepped
    have store := step.store_of_failed
    by_cases met : fault.kind = .endOfInput
    · rw [if_pos met] at store
      rw [store, if_pos met]
      exact ⟨rfl, step.loops_of_failed, rfl, rfl, step.progress_of_failed, rfl⟩
    · rw [if_neg met] at store
      rw [store, if_neg met]
      exact ⟨rfl, step.loops_of_failed, rfl, rfl, step.progress_of_failed, rfl⟩

/-- A machine in a loop, with an input that has ended before all of it was read, and with a count
of steps that is about to begin anew. -/
def late : Machine :=
  ⟨⟨.blank, ⟨[5], true⟩, .empty⟩, 0, [7], 0xFFFFFFFFFFFFFFFF⟩

/-- The program `,`. -/
def readOnce : Program :=
  #[.act .read]

/-- The read fails though a byte is unread, and nothing but the position, the count and the flushes
changes. -/
theorem fault_of_step_late :
  ∃ m', late.step readOnce {} = (m', .failed ⟨.endOfInput, 0⟩) ∧
    m'.store.tape = late.store.tape ∧ m'.loops = [7] ∧ m'.store.input.unread = [5] ∧
    m'.position = 1 ∧ m'.steps = 0 ∧ m'.store.output.flushes = 1
  := by
  obtain ⟨fails, leaves⟩ := fault_of_step readOnce {} late
  have failed := (fails ⟨.endOfInput, 0⟩).mpr (.endOfInput rfl rfl rfl (.inr rfl))
  have stepped : late.step readOnce {} = (_, .failed ⟨.endOfInput, 0⟩) := Prod.ext rfl failed
  obtain ⟨tape, loops, -, unread, ⟨position, steps⟩, flushes⟩ := leaves _ _ stepped
  exact ⟨_, stepped, tape, loops, unread, position, steps, flushes⟩

/-- The options that grant one step. -/
def single : Options :=
  { maxSteps := 1 }

/-- The program `+`. -/
def plus : Program :=
  #[.act .increment]

/-- A program that needs all the steps it is granted has none left at its end, and yet a further
step is not refused: the end of the program comes first. -/
theorem halted_of_exhausted_plus :
  ∃ m, (Machine.initial []).step plus single = (m, .running) ∧
    ¬ (plus.size ≤ m.position ∧ m.loops ≠ []) ∧
    (single.maxSteps ≠ 0 ∧ single.maxSteps ≤ m.steps) ∧
    m.step plus single = (m, .halted)
  := by
  refine ⟨_, rfl, ?_, ?_, rfl⟩
  · decide
  · decide

end Machine

end ByteTape
