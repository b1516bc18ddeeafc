import ByteTape.Proofs.LoopStack

/-!
# What the end of a run says about the brackets

No one checks the brackets of a program before it runs, and a run need not visit all of them.
Still, wherever a running machine is, all that lies before its position has been either executed
or passed over as part of a loop, so that no loop end before it is stray (`Clear`).  Hence a run
ends without a fault only if every bracket has a partner, and a fault that is about a bracket
names one that has none (`verdict_of_run`).
-/

namespace ByteTape

namespace Machine

variable {program : Program} {options : Options} {m m' : Machine}

/-- The loops that are being run fit the position, and no loop end before it is stray. -/
structure Clear (program : Program) (m : Machine) : Prop where
  fits : ∃ last, Fits program last m
  within : m.position ≤ program.size
  before : ∀ q < m.position, ¬ program.StrayEnd q

theorem clear_initial (program : Program) (input : List UInt8) :
  Clear program (.initial input)
  where
  fits := ⟨none, fits_initial program input⟩
  within := Nat.zero_le _
  before q h := absurd h (Nat.not_lt_zero q)

theorem not_strayEnd_of_ne {position : Nat} (other : program[position]? ≠ some .loopEnd) :
  ¬ program.StrayEnd position
  := by
  intro stray
  apply other stray.1

/-- An instruction that is no stray loop end may be passed. -/
theorem Clear.forward (clear : Clear program m) {instruction : Instruction}
    (here : program[m.position]? = some instruction) (passed : ¬ program.StrayEnd m.position)
    (fits : ∃ last, Fits program last m') (next : m'.position = m.position + 1) :
  Clear program m'
  where
  fits := fits
  within := by
    rw [next]
    apply (Array.getElem?_eq_some_iff.mp here).1
  before := by
    intro q below
    rw [next] at below
    obtain below | rfl := Nat.lt_succ_iff_lt_or_eq.mp below
    · apply clear.before q below
    · apply passed

/-- A running step passes no stray loop end. -/
theorem Clear.next (clear : Clear program m)
    (step : m.Transition program options m' .running) :
  Clear program m'
  := by
  obtain ⟨last, fits⟩ := clear.fits
  have fits' := fits.next_running step
  cases step with
  | performed here granted effect =>
    apply clear.forward here _ fits' rfl
    apply not_strayEnd_of_ne (by simp [here])
  | skipped here granted zero found =>
    have pair := (Program.closing?_eq_some_iff here).mp found
    refine ⟨fits', pair.finish_lt, ?_⟩
    intro q below
    obtain below | rfl | above := Nat.lt_trichotomy q m.position
    · apply clear.before q below
    · apply not_strayEnd_of_ne (by simp [here])
    · apply pair.not_strayEnd above (Nat.le_of_lt_succ below)
  | entered here granted nonzero =>
    apply clear.forward here _ fits' rfl
    apply not_strayEnd_of_ne (by simp [here])
  | left here granted still zero =>
    obtain ⟨pair, -⟩ := fits.pairs here still
    apply clear.forward here _ fits' rfl
    apply pair.not_strayEnd pair.lt.1 (Nat.le_refl _)
  | repeated here granted still nonzero =>
    obtain ⟨pair, -⟩ := fits.pairs here still
    refine ⟨fits', Nat.le_trans (Nat.le_of_lt pair.lt.1) clear.within, ?_⟩
    intro q below
    apply clear.before q (Nat.lt_trans below pair.lt.1)

/-- What the end of a run says about the brackets of the program. -/
def Verdict (program : Program) (m : Machine) : Option Fault → Prop
  | none => program.Balanced ∧ m.loops = [] ∧ m.position = program.size
  | some ⟨.unopenedLoop, q⟩ => program.StrayEnd q ∧ ∀ q' < q, ¬ program.StrayEnd q'
  | some ⟨.unclosedLoop, p⟩ => program.StrayStart p ∧ ∀ q, ¬ program.StrayEnd q
  | some _ => True

/-- If nothing before the end of the program is stray then no loop end is. -/
theorem Clear.not_strayEnd (clear : Clear program m) (past : program.size ≤ m.position)
    (q : Nat) :
  ¬ program.StrayEnd q
  := by
  intro stray
  apply clear.before q (Nat.lt_of_lt_of_le stray.lt past) stray

theorem Clear.verdict_halted (clear : Clear program m)
    (step : m.Transition program options m' .halted) :
  Verdict program m' none
  := by
  obtain ⟨last, fits⟩ := clear.fits
  cases step with
  | halted past closed =>
    have none := fits.loops_eq_of_size_le past
    rw [closed] at none
    exact ⟨⟨clear.not_strayEnd past, none.symm⟩, closed, Nat.le_antisymm clear.within past⟩

theorem Clear.verdict_failed {fault : Fault} (clear : Clear program m)
    (step : m.Transition program options m' (.failed fault)) :
  Verdict program m' (some fault)
  := by
  obtain ⟨last, fits⟩ := clear.fits
  cases step with
  | leftOpen past still =>
    constructor
    · rw [← Program.mem_openLoops_size_iff, ← fits.loops_eq_of_size_le past, still]
      apply List.mem_cons_self
    · apply clear.not_strayEnd past
  | refused inside exhausted => trivial
  | stopped here granted effect =>
    obtain ⟨-, rfl⟩ | ⟨-, rfl⟩ := Store.kind_of_perform effect
    · trivial
    · trivial
  | unended here granted zero missing =>
    have stray := (Program.closing?_eq_none_iff here).mp missing
    use stray
    intro q
    obtain below | rfl | above := Nat.lt_trichotomy q m.position
    · apply clear.before q below
    · apply not_strayEnd_of_ne (by simp [here])
    · apply stray.not_strayEnd above
  | unbegun here granted closed =>
    constructor
    · use here
      rw [← fits.loops_eq (by simp [here]), closed]
    · apply clear.before

/-- Every run that ends gives a verdict on the brackets. -/
theorem verdict_of_run {input : List UInt8} {fuel : Nat} {fault : Option Fault}
    (ended : run program options fuel (.initial input) = some (m, fault)) :
  Verdict program m fault
  := by
  apply of_run (P := Clear program) Clear.next _ Clear.verdict_failed
    (clear_initial program input) ended
  intro m clear step
  apply clear.verdict_halted step

/-- The brackets of a program and the way a run of it ends.  A run without a fault shows that
the brackets match, and it leaves all loops and ends behind the last instruction.  If the
brackets match then no fault is about them.  A loop end that is said to have no beginning is the
first that has none; a loop beginning that is said to have no end has none, and then all loop
ends have a beginning. -/
theorem brackets_of_run {input : List UInt8} {fuel : Nat} {fault : Option Fault}
    (ended : run program options fuel (.initial input) = some (m, fault)) :
  (fault = none →
    program.Balanced ∧ m.loops = [] ∧ m.position = program.size) ∧
  (program.Balanced → ∀ position,
    fault ≠ some ⟨.unclosedLoop, position⟩ ∧ fault ≠ some ⟨.unopenedLoop, position⟩) ∧
  (∀ q, fault = some ⟨.unopenedLoop, q⟩ →
    program.StrayEnd q ∧ ∀ q' < q, ¬ program.StrayEnd q') ∧
  (∀ p, fault = some ⟨.unclosedLoop, p⟩ →
    program.StrayStart p ∧ ∀ q, ¬ program.StrayEnd q)
  := by
  have verdict := verdict_of_run ended
  and_intros
  · rintro rfl
    apply verdict
  · intro balanced position
    constructor
    · rintro rfl
      apply balanced.not_strayStart verdict.1
    · rintro rfl
      apply balanced.1 position verdict.1
  · rintro q rfl
    apply verdict
  · rintro p rfl
    apply verdict

/-- The program `+[-[`, which meets its second loop beginning at a zero. -/
def unclosed : Program :=
  #[.act .increment, .loopStart, .act .decrement, .loopStart]

/-- Both loop beginnings are stray; the run meets the second one first. -/
theorem brackets_of_unclosed :
  (∃ m, run unclosed {} 4 (.initial []) = some (m, some ⟨.unclosedLoop, 3⟩)) ∧
  unclosed.StrayStart 3 ∧ ∀ q, ¬ unclosed.StrayEnd q
  := by
  have ended : run unclosed {} 4 (.initial []) =
      some (⟨_, 4, [1], 4⟩, some ⟨.unclosedLoop, 3⟩) := rfl
  use ⟨_, ended⟩
  apply (brackets_of_run ended).2.2.2 3 rfl

end Machine

end ByteTape
