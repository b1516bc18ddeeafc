import ByteTape.Machine

/-!
# What a step can do

`Machine.Transition` lists the eleven things that can happen when a machine is asked for a step,
each with what has to hold for it and the state and outcome that it leads to.  A step is always
one of them and each of them is a step (`transition_of_step`, `Transition.step_eq`), so an
argument about steps is an argument by cases on a transition.  What every running step keeps
holds when a run ends (`of_run`).
-/

namespace ByteTape

namespace Machine

/-- `m.Transition program options m' outcome`: a step leads from `m` to `m'` with `outcome`. -/
inductive Transition (program : Program) (options : Options) (m : Machine) :
    Machine → Outcome → Prop where
  /-- The program is at its end and no loop is being run. -/
  | halted (past : program.size ≤ m.position) (closed : m.loops = []) :
    Transition program options m m .halted
  /-- The program is at its end and a loop is still being run. -/
  | leftOpen {innermost : Nat} {outer : List Nat} (past : program.size ≤ m.position)
      (still : m.loops = innermost :: outer) :
    Transition program options m m (.failed ⟨.unclosedLoop, innermost⟩)
  /-- The steps are used up. -/
  | refused (inside : m.position < program.size)
      (exhausted : options.exhausted m.steps = true) :
    Transition program options m m (.failed ⟨.stepLimit, m.position⟩)
  /-- An action was performed. -/
  | performed {action : Action} {store : Store}
      (here : program[m.position]? = some (.act action))
      (granted : options.exhausted m.steps = false)
      (effect : m.store.perform options.eof action = (store, none)) :
    Transition program options m ⟨store, m.position + 1, m.loops, m.steps + 1⟩ .running
  /-- An action failed. -/
  | stopped {action : Action} {store : Store} {kind : FaultKind}
      (here : program[m.position]? = some (.act action))
      (granted : options.exhausted m.steps = false)
      (effect : m.store.perform options.eof action = (store, some kind)) :
    Transition program options m ⟨store, m.position + 1, m.loops, m.steps + 1⟩
      (.failed ⟨kind, m.position⟩)
  /-- A loop was passed over. -/
  | skipped {closing : Nat} (here : program[m.position]? = some .loopStart)
      (granted : options.exhausted m.steps = false) (zero : m.store.tape.current = 0)
      (found : program.closing? (m.position + 1) = some closing) :
    Transition program options m ⟨m.store, closing + 1, m.loops, m.steps + 1⟩ .running
  /-- A loop could not be passed over because it has no end. -/
  | unended (here : program[m.position]? = some .loopStart)
      (granted : options.exhausted m.steps = false) (zero : m.store.tape.current = 0)
      (missing : program.closing? (m.position + 1) = none) :
    Transition program options m ⟨m.store, m.position + 1, m.loops, m.steps + 1⟩
      (.failed ⟨.unclosedLoop, m.position⟩)
  /-- A round of a loop has begun. -/
  | entered (here : program[m.position]? = some .loopStart)
      (granted : options.exhausted m.steps = false) (nonzero : m.store.tape.current ≠ 0) :
    Transition program options m
      ⟨m.store, m.position + 1, enter m.position m.loops, m.steps + 1⟩ .running
  /-- A loop end was met though no loop is being run. -/
  | unbegun (here : program[m.position]? = some .loopEnd)
      (granted : options.exhausted m.steps = false) (closed : m.loops = []) :
    Transition program options m ⟨m.store, m.position + 1, [], m.steps + 1⟩
      (.failed ⟨.unopenedLoop, m.position⟩)
  /-- The innermost loop was left. -/
  | left {innermost : Nat} {outer : List Nat} (here : program[m.position]? = some .loopEnd)
      (granted : options.exhausted m.steps = false) (still : m.loops = innermost :: outer)
      (zero : m.store.tape.current = 0) :
    Transition program options m ⟨m.store, m.position + 1, outer, m.steps + 1⟩ .running
  /-- The machine went back to the beginning of the innermost loop. -/
  | repeated {innermost : Nat} {outer : List Nat}
      (here : program[m.position]? = some .loopEnd)
      (granted : options.exhausted m.steps = false) (still : m.loops = innermost :: outer)
      (nonzero : m.store.tape.current ≠ 0) :
    Transition program options m ⟨m.store, innermost, innermost :: outer, m.steps + 1⟩ .running

variable {program : Program} {options : Options} {m m' : Machine} {outcome : Outcome}

/-- As long as steps are left, a step executes the instruction at the position. -/
theorem step_of_granted {instruction : Instruction}
    (here : program[m.position]? = some instruction)
    (granted : options.exhausted m.steps = false) :
  m.step program options = m.execute program options.eof instruction
  := by
  rw [step, here]
  simp [granted]

/-- Every step is a transition. -/
theorem transition_of_step (stepped : m.step program options = (m', outcome)) :
  m.Transition program options m' outcome
  := by
  obtain ⟨store, position, loops, steps⟩ := m
  rw [step] at stepped
  split at stepped
  · rename_i gone
    have past : program.size ≤ position := Array.getElem?_eq_none_iff.mp gone
    cases loops with
    | nil =>
      cases stepped
      apply Transition.halted past rfl
    | cons innermost outer =>
      cases stepped
      apply Transition.leftOpen past rfl
  · rename_i instruction here
    obtain ⟨inside, -⟩ := Array.getElem?_eq_some_iff.mp here
    cases granted : options.exhausted steps with
    | true =>
      rw [granted] at stepped
      cases stepped
      apply Transition.refused inside granted
    | false =>
      simp only [granted, Bool.false_eq_true, if_false] at stepped
      cases instruction with
      | act action =>
        cases effect : store.perform options.eof action with
        | mk store' kind =>
          simp only [execute, effect] at stepped
          cases kind with
          | none =>
            cases stepped
            apply Transition.performed here granted effect
          | some kind =>
            cases stepped
            apply Transition.stopped here granted effect
      | loopStart =>
        by_cases zero : store.tape.current = 0
        · cases found : program.closing? (position + 1) with
          | none =>
            simp only [execute, zero, found, if_true] at stepped
            cases stepped
            apply Transition.unended here granted zero found
          | some closing =>
            simp only [execute, zero, found, if_true] at stepped
            cases stepped
            apply Transition.skipped here granted zero found
        · simp only [execute, zero, if_false] at stepped
          cases stepped
          apply Transition.entered here granted zero
      | loopEnd =>
        cases loops with
        | nil =>
          cases stepped
          apply Transition.unbegun here granted rfl
        | cons innermost outer =>
          by_cases zero : store.tape.current = 0
          · simp only [execute, zero, if_true] at stepped
            cases stepped
            apply Transition.left here granted rfl zero
          · simp only [execute, zero, if_false] at stepped
            cases stepped
            apply Transition.repeated here granted rfl zero

/-- Every transition is a step. -/
theorem Transition.step_eq (transition : m.Transition program options m' outcome) :
  m.step program options = (m', outcome)
  := by
  obtain ⟨store, position, loops, steps⟩ := m
  cases transition with
  | halted past closed => apply step_of_halted options past closed
  | leftOpen past still =>
    obtain rfl : loops = _ := still
    rw [step, Array.getElem?_eq_none past]
  | refused inside exhausted => apply step_of_exhausted inside exhausted
  | performed here granted effect =>
    rw [step_of_granted here granted]
    simp only [execute, effect, Outcome.ofKind?]
  | stopped here granted effect =>
    rw [step_of_granted here granted]
    simp only [execute, effect, Outcome.ofKind?]
  | skipped here granted zero found =>
    rw [step_of_granted here granted]
    simp only [execute, if_pos zero, found]
  | unended here granted zero missing =>
    rw [step_of_granted here granted]
    simp only [execute, if_pos zero, missing]
  | entered here granted nonzero =>
    rw [step_of_granted here granted]
    simp only [execute, if_neg nonzero]
  | unbegun here granted closed =>
    obtain rfl : loops = _ := closed
    rw [step_of_granted here granted]
    rfl
  | left here granted still zero =>
    obtain rfl : loops = _ := still
    rw [step_of_granted here granted]
    simp only [execute, if_pos zero]
  | repeated here granted still nonzero =>
    obtain rfl : loops = _ := still
    rw [step_of_granted here granted]
    simp only [execute, if_neg nonzero]

/-- Whether a step from a state executes an instruction. -/
def Executes (program : Program) (options : Options) (m : Machine) : Prop :=
  m.position < program.size ∧ options.exhausted m.steps = false

instance : Decidable (m.Executes program options) :=
  inferInstanceAs (Decidable (_ ∧ _))

/-- A step at an instruction executes it if steps are left. -/
theorem executes_of_getElem? {instruction : Instruction}
    (here : program[m.position]? = some instruction)
    (granted : options.exhausted m.steps = false) :
  m.Executes program options
  := by
  obtain ⟨inside, -⟩ := Array.getElem?_eq_some_iff.mp here
  exact ⟨inside, granted⟩

/-- If a property holds at the beginning of a run and running steps keep it, then a run that
ends does so with a step from a state that has the property. -/
theorem of_run {P : Machine → Prop} {Q : Machine → Option Fault → Prop}
    (running : ∀ {m m'}, P m → m.Transition program options m' .running → P m')
    (halted : ∀ {m}, P m → m.Transition program options m .halted → Q m.flush none)
    (failed : ∀ {m m' fault}, P m → m.Transition program options m' (.failed fault) →
      Q m' (some fault))
    {fuel : Nat} {fault : Option Fault} (start : P m)
    (ended : run program options fuel m = some (m', fault)) :
  Q m' fault
  := by
  induction fuel generalizing m with
  | zero => cases ended
  | succ fuel ih =>
    rw [run] at ended
    split at ended
    · rename_i next stepped
      apply ih (running start (transition_of_step stepped)) ended
    · rename_i next stepped
      have step := transition_of_step stepped
      cases ended
      cases step with
      | halted past closed => apply halted start (.halted past closed)
    · rename_i next fault stepped
      cases ended
      apply failed start (transition_of_step stepped)

end Machine

end ByteTape
