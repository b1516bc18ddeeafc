import ByteTape.Proofs.Transition

/-!
# Steps that read

A step that executes a read depends on the tape, the input, the output and the policy only, in the
way that `Store.read` says (`step_of_reads`).  All other steps leave the input as it is, and would
be the same with any other input and under any other policy (`step_withInput_of_not_reads`).

A read either takes the byte that it stores from the front of the input, or it meets the end of
the input and takes nothing (`Store.read_of_eq_some`, `Store.read_of_eq_none`).

`Machine.attempt` makes a given number of steps, whatever comes of them: a step that fails is
followed by the next one as any other is.
-/

namespace ByteTape

/-- A store that reads from another input. -/
def Store.withInput (input : Input) (store : Store) : Store :=
  { store with input }

namespace Machine

/-- A machine that reads from another input. -/
def withInput (input : Input) (m : Machine) : Machine :=
  { m with store := m.store.withInput input }

/-- The next step executes a read. -/
def Reads (program : Program) (options : Options) (m : Machine) : Prop :=
  program[m.position]? = some (.act .read) ∧ options.exhausted m.steps = false

/-- The next step executes a read that finds no byte. -/
def MeetsEnd (program : Program) (options : Options) (m : Machine) : Prop :=
  m.Reads program options ∧ m.store.input.read.1 = none

/-- The machine after `n` steps, whatever comes of them, and what came of each. -/
def attempt (program : Program) (options : Options) :
    (n : Nat) → Machine → Machine × List Outcome
  | 0, m => (m, [])
  | n + 1, m =>
    match m.step program options with
    | (m, outcome) =>
      match attempt program options n m with
      | (m, outcomes) => (m, outcome :: outcomes)

end Machine

namespace Store

variable {eof : EofPolicy} {action : Action} {store store' : Store} {kind : Option FaultKind}

/-- An action that is no read does not depend on the input or on the policy. -/
theorem perform_withInput (effect : store.perform eof action = (store', kind))
    (other : action ≠ .read) (input : Input) (eof' : EofPolicy) :
  (store.withInput input).perform eof' action = (store'.withInput input, kind)
  := by
  obtain ⟨tape, input', output⟩ := store
  cases action with
  | right =>
    simp only [perform_right, move, withInput] at effect ⊢
    split at effect <;> cases effect <;> rfl
  | left =>
    simp only [perform_left, move, withInput] at effect ⊢
    split at effect <;> cases effect <;> rfl
  | increment => cases effect; rfl
  | decrement => cases effect; rfl
  | write => cases effect; rfl
  | read => apply absurd rfl other

/-- Whatever the policy, a read leaves of the input what the input says. -/
theorem input_read (store : Store) (eof : EofPolicy) :
  (store.read eof).1.input = store.input.read.2
  := by
  obtain ⟨tape, input, output⟩ := store
  simp only [read_eq]
  split
  · rename_i byte rest found
    rw [found]
  · rename_i rest missing
    rw [missing]
    cases eof with
    | fail => rfl
    | zero => rfl
    | keep => rfl

/-- A read that finds a byte stores it and takes it from the input. -/
theorem read_of_eq_some {byte : UInt8} {rest : Input}
    (found : store.input.read = (some byte, rest)) (eof : EofPolicy) :
  store.read eof = (⟨store.tape.put byte, rest, store.output.flush⟩, none)
  := by
  simp only [read_eq, found]

/-- A read that finds no byte takes none.  The policy says what else it does. -/
theorem read_of_eq_none (missing : store.input.read.1 = none) (eof : EofPolicy) :
  store.read eof =
    (⟨if eof = .zero then store.tape.put 0 else store.tape, ⟨store.input.unread, true⟩,
      store.output.flush⟩, if eof = .fail then some .endOfInput else none)
  := by
  obtain ⟨tape, ⟨unread, ended⟩, output⟩ := store
  have spent : Input.read ⟨unread, ended⟩ = (none, ⟨unread, true⟩) := by
    cases ended with
    | true => apply Input.read_ended
    | false =>
      cases unread with
      | nil => apply Input.read_nil
      | cons byte rest => cases missing
  simp only [read_eq, spent]
  cases eof with
  | fail => rfl
  | zero => rfl
  | keep => rfl

end Store

namespace Machine

variable {program : Program} {options : Options} {eof : EofPolicy} {limit : UInt64}
  {m m' : Machine} {outcome : Outcome}

instance : Decidable (m.Reads program options) :=
  inferInstanceAs (Decidable (_ ∧ _))

instance : Decidable (m.MeetsEnd program options) :=
  inferInstanceAs (Decidable (_ ∧ _))

/-! ### Single steps -/

/-- A step that reads does what the read does to the store, and goes on with the next
instruction. -/
theorem step_of_reads (reads : m.Reads program options) :
  m.step program options =
    (⟨(m.store.read options.eof).1, m.position + 1, m.loops, m.steps + 1⟩,
      .ofKind? m.position (m.store.read options.eof).2)
  := step_of_granted reads.1 reads.2

/-- A step that does not read is made with any other input and under any other policy too. -/
theorem Transition.withInput (step : m.Transition program ⟨eof, limit⟩ m' outcome)
    (idle : ¬ m.Reads program ⟨eof, limit⟩) (input : Input) (eof' : EofPolicy) :
  (m.withInput input).Transition program ⟨eof', limit⟩ (m'.withInput input) outcome
  := by
  have other {action : Action} (here : program[m.position]? = some (.act action))
      (granted : Options.exhausted ⟨eof, limit⟩ m.steps = false) : action ≠ .read := by
    rintro rfl
    apply idle ⟨here, granted⟩
  cases step with
  | halted past closed => exact .halted past closed
  | leftOpen past still => exact .leftOpen past still
  | refused inside exhausted => exact .refused inside exhausted
  | performed here granted effect =>
    exact .performed here granted
      (Store.perform_withInput effect (other here granted) input eof')
  | stopped here granted effect =>
    exact .stopped here granted
      (Store.perform_withInput effect (other here granted) input eof')
  | skipped here granted zero found => exact .skipped here granted zero found
  | unended here granted zero missing => exact .unended here granted zero missing
  | entered here granted nonzero => exact .entered here granted nonzero
  | unbegun here granted closed => exact .unbegun here granted closed
  | left here granted still zero => exact .left here granted still zero
  | repeated here granted still nonzero => exact .repeated here granted still nonzero

/-- A step that does not read does the same with any other input and under any other policy. -/
theorem step_withInput_of_not_reads (idle : ¬ m.Reads program ⟨eof, limit⟩) (input : Input)
    (eof' : EofPolicy) :
  (m.withInput input).step program ⟨eof', limit⟩ =
    ((m.step program ⟨eof, limit⟩).1.withInput input, (m.step program ⟨eof, limit⟩).2)
  := by
  apply Transition.step_eq
  apply Transition.withInput (transition_of_step rfl) idle

/-- A step that does not read leaves the input as it is. -/
theorem input_step_of_not_reads (idle : ¬ m.Reads program options) :
  (m.step program options).1.store.input = m.store.input
  := by
  have same := step_withInput_of_not_reads idle m.store.input options.eof
  apply congrArg (fun stepped => stepped.1.store.input) same

/-! ### Any number of steps -/

/-- The first of a number of steps is made before the others. -/
theorem attempt_succ (program : Program) (options : Options) (n : Nat) (m : Machine) :
  attempt program options (n + 1) m =
    ((attempt program options n (m.step program options).1).1,
      (m.step program options).2 ::
        (attempt program options n (m.step program options).1).2)
  := rfl

end Machine

end ByteTape
