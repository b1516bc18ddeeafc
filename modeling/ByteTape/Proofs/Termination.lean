import ByteTape.Proofs.LoopStack
import ByteTape.Proofs.StepLimit

/-!
# Runs under a step limit end

Whatever a program does, each step that does not end its run is counted, and none is made once the
count has reached the limit.  So the limit bounds the number of steps, from any state
(`run_of_limited`), though nothing else need ever come closer to an end: a loop may go on for ever,
and what is on the stack of loops may lead anywhere.

The count is a 64-bit number.  It stays below the limit as long as an instruction is executed, hence
it never starts again from zero (`Transition.toNat_steps`).  This holds up to the largest limit
there is.
-/

namespace ByteTape

namespace Machine

variable {program : Program} {options : Options} {m m' : Machine} {outcome : Outcome}
  {eof : EofPolicy} {limit : UInt64} {n : Nat}

/-! ### What a step counts -/

/-- A step counts the instruction that it executes, if it executes one. -/
theorem Transition.steps_eq_add_executed (step : m.Transition program options m' outcome) :
  m'.steps = m.steps + UInt64.ofNat (m.executed program options)
  := by
  have idle (none : m.executed program options = 0) :
      m.steps = m.steps + UInt64.ofNat (m.executed program options) := by
    rw [none]
    apply (UInt64.add_zero _).symm
  have counted {instruction : Instruction} (here : program[m.position]? = some instruction)
      (granted : options.exhausted m.steps = false) :
      m.steps + 1 = m.steps + UInt64.ofNat (m.executed program options) := by
    rw [executed, if_pos (executes_of_getElem? here granted)]
    rfl
  cases step with
  | halted past closed => apply idle (executed_of_size_le past)
  | leftOpen past still => apply idle (executed_of_size_le past)
  | refused inside exhausted => apply idle (executed_of_exhausted exhausted)
  | performed here granted effect => apply counted here granted
  | stopped here granted effect => apply counted here granted
  | skipped here granted zero found => apply counted here granted
  | unended here granted zero missing => apply counted here granted
  | entered here granted nonzero => apply counted here granted
  | unbegun here granted closed => apply counted here granted
  | left here granted still zero => apply counted here granted
  | repeated here granted still nonzero => apply counted here granted

/-- Under a limit the count of steps is below it wherever an instruction is executed. -/
theorem Executes.steps_lt (executes : m.Executes program ⟨eof, limit⟩) (limited : limit ≠ 0) :
  m.steps.toNat < limit.toNat
  := by
  have below : m.steps < limit := by simpa [Options.exhausted, limited] using executes.2
  apply UInt64.lt_iff_toNat_lt.mp below

/-- Under a limit a step counts without starting again from zero, and not beyond the limit. -/
theorem Transition.toNat_steps (step : m.Transition program ⟨eof, limit⟩ m' outcome)
    (limited : limit ≠ 0) :
  m'.steps.toNat = m.steps.toNat + m.executed program ⟨eof, limit⟩ ∧
    m'.steps.toNat ≤ max limit.toNat m.steps.toNat
  := by
  rw [step.steps_eq_add_executed, executed]
  split
  · rename_i executes
    have below := executes.steps_lt limited
    have bounded := limit.toNat_lt
    have counted : (m.steps + UInt64.ofNat 1).toNat = m.steps.toNat + 1 := by
      rw [UInt64.toNat_add, show (UInt64.ofNat 1).toNat = 1 from rfl, Nat.mod_eq_of_lt]
      omega
    omega
  · rw [show m.steps + UInt64.ofNat 0 = m.steps from UInt64.add_zero _]
    exact ⟨rfl, Nat.le_max_right _ _⟩

/-- Under a limit the count of steps is exact as long as a run goes on, and not beyond the
limit. -/
theorem toNat_steps_of_advance? (limited : limit ≠ 0)
    (advanced : advance? program ⟨eof, limit⟩ n m = some m') :
  m'.steps.toNat = m.steps.toNat + n ∧ m'.steps.toNat ≤ max limit.toNat m.steps.toNat
  := by
  induction n generalizing m with
  | zero =>
    cases advanced
    exact ⟨rfl, Nat.le_max_right _ _⟩
  | succ n ih =>
    obtain ⟨next, step, advanced⟩ := exists_of_advance?_succ advanced
    obtain ⟨exact, within⟩ := step.toNat_steps limited
    rw [step.executed_eq_one] at exact
    have := ih advanced
    omega

/-! ### The end of a run -/

/-- Under a limit no run goes on for more steps than are left. -/
theorem le_of_advance? (limited : limit ≠ 0)
    (advanced : advance? program ⟨eof, limit⟩ n m = some m') :
  n ≤ limit.toNat - m.steps.toNat
  := by
  obtain ⟨exact, within⟩ := toNat_steps_of_advance? limited advanced
  omega

/-- Under a limit every run ends, whatever state it begins in: it asks for one step more, at most,
than the limit leaves.  At each step that it asks for, the count of steps is that of the beginning
and the steps made since; the step adds one to it or nothing; and what comes out is not beyond the
limit unless the count was so at the beginning.  So the count never starts again from zero. -/
theorem run_of_limited (program : Program) (eof : EofPolicy) {limit : UInt64}
    (limited : limit ≠ 0) (m : Machine) :
  (∃ m' fault,
    run program ⟨eof, limit⟩ (limit.toNat - m.steps.toNat + 1) m = some (m', fault) ∧
      m.steps ≤ m'.steps ∧ m'.steps.toNat ≤ max limit.toNat m.steps.toNat) ∧
  ∀ n m₁, advance? program ⟨eof, limit⟩ n m = some m₁ →
    m₁.steps.toNat = m.steps.toNat + n ∧
    ∀ m₂ outcome, m₁.step program ⟨eof, limit⟩ = (m₂, outcome) →
      m₁.steps ≤ m₂.steps ∧
      m₂.steps.toNat = m₁.steps.toNat + m₁.executed program ⟨eof, limit⟩ ∧
      m₂.steps.toNat ≤ max limit.toNat m.steps.toNat
  := by
  have counts {n : Nat} {m₁ m₂ : Machine} {outcome : Outcome}
      (advanced : advance? program ⟨eof, limit⟩ n m = some m₁)
      (step : m₁.Transition program ⟨eof, limit⟩ m₂ outcome) :
      m₂.steps.toNat = m.steps.toNat + n + m₁.executed program ⟨eof, limit⟩ ∧
        m₂.steps.toNat ≤ max limit.toNat m.steps.toNat := by
    have before := toNat_steps_of_advance? limited advanced
    have after := step.toNat_steps limited
    omega
  constructor
  · obtain ⟨m₁, advanced⟩ | ⟨n, before, m₁, m', fault, advanced, stops⟩ :=
      advance?_or_stops program ⟨eof, limit⟩ m (limit.toNat - m.steps.toNat + 1)
    · have := le_of_advance? limited advanced
      omega
    · use m', fault, run_eq_some_iff.mpr ⟨n, before, m₁, advanced, stops⟩
      rw [UInt64.le_iff_toNat_le]
      cases stops with
      | halted step =>
        have := counts advanced step
        rw [show m₁.flush.steps = m₁.steps from rfl]
        omega
      | failed step =>
        have := counts advanced step
        omega
  · intro n m₁ advanced
    obtain ⟨exact, -⟩ := toNat_steps_of_advance? limited advanced
    use exact
    intro m₂ outcome stepped
    have := counts advanced (transition_of_step stepped)
    rw [UInt64.le_iff_toNat_le]
    omega

/-- The largest limit there is stops a loop that would go on for ever, also when the count of steps
begins so high that only one is left. -/
theorem run_of_limited_spinning :
  (0xFFFFFFFFFFFFFFFF : UInt64) ≠ 0 ∧
  ∃ m, run spin ⟨.fail, 0xFFFFFFFFFFFFFFFF⟩ 2 (spinning 0xFFFFFFFFFFFFFFFE) =
      some (m, some ⟨.stepLimit, 2⟩) ∧
    m.steps.toNat ≤ 0xFFFFFFFFFFFFFFFF
  := by
  have limited : (0xFFFFFFFFFFFFFFFF : UInt64) ≠ 0 := by decide
  use limited
  obtain ⟨⟨m, fault, ended, -, within⟩, -⟩ :=
    run_of_limited spin .fail limited (spinning 0xFFFFFFFFFFFFFFFE)
  have entered : (spinning 0xFFFFFFFFFFFFFFFE).Transition spin ⟨.fail, 0xFFFFFFFFFFFFFFFF⟩ _
      .running := .entered rfl rfl (current_spinning _)
  have cut : run spin ⟨.fail, 0xFFFFFFFFFFFFFFFF⟩ 2 (spinning 0xFFFFFFFFFFFFFFFE) =
      some (⟨(spinning 0).store, 2, [1], 0xFFFFFFFFFFFFFFFF⟩, some ⟨.stepLimit, 2⟩) := by
    rw [run, entered.step_eq]
    rfl
  cases ended.symm.trans cut
  exact ⟨_, cut, within⟩

end Machine

end ByteTape
