import ByteTape.Matching

/-!
# Which brackets belong together

One pass over a program from left to right pairs its brackets: a loop beginning is put on a
stack, and a loop end takes the top of the stack for its partner, or is stray if the stack is
empty.  `Program.openLoops k` is the stack before position `k`, that is, the beginnings of the
loops that are open there, innermost first.  `Program.Pairs` says which positions belong
together, `Program.StrayEnd` and `Program.StrayStart` which brackets have no partner, and
`Program.Balanced` that there are none without.

None of this depends on how a program runs.
-/

namespace ByteTape

namespace Program

/-- The open loops behind an instruction, given those before it. -/
def openAfter (position : Nat) (loops : List Nat) : Instruction → List Nat
  | .act _ => loops
  | .loopStart => position :: loops
  | .loopEnd => loops.tail

/-- The beginnings of the loops that are open before a position, innermost first. -/
def openLoops (program : Program) : Nat → List Nat
  | 0 => []
  | k + 1 =>
    match program[k]? with
    | some instruction => openAfter k (program.openLoops k) instruction
    | none => program.openLoops k

/-- The loop that begins at `start` ends at `finish`. -/
def Pairs (program : Program) (start finish : Nat) : Prop :=
  program[finish]? = some .loopEnd ∧ (program.openLoops finish).head? = some start

/-- A loop end without a beginning. -/
def StrayEnd (program : Program) (position : Nat) : Prop :=
  program[position]? = some .loopEnd ∧ program.openLoops position = []

/-- A loop beginning without an end. -/
def StrayStart (program : Program) (position : Nat) : Prop :=
  program[position]? = some .loopStart ∧ ∀ finish, ¬ program.Pairs position finish

/-- Every bracket has a partner. -/
def Balanced (program : Program) : Prop :=
  (∀ position, ¬ program.StrayEnd position) ∧ program.openLoops program.size = []

instance (program : Program) (start finish : Nat) : Decidable (program.Pairs start finish) :=
  inferInstanceAs (Decidable (_ ∧ _))

instance (program : Program) (position : Nat) : Decidable (program.StrayEnd position) :=
  inferInstanceAs (Decidable (_ ∧ _))

/-! ### Open loops -/

theorem openLoops_succ {program : Program} {k : Nat} {instruction : Instruction}
    (h : program[k]? = some instruction) :
  program.openLoops (k + 1) = openAfter k (program.openLoops k) instruction
  := by
  rw [openLoops, h]

/-- An open loop begins before the position, with a loop beginning. -/
theorem of_mem_openLoops {program : Program} {k p : Nat} (h : p ∈ program.openLoops k) :
  p < k ∧ program[p]? = some .loopStart
  := by
  induction k with
  | zero => simp [openLoops] at h
  | succ k ih =>
    have older (h : p ∈ program.openLoops k) : p < k + 1 ∧ program[p]? = some .loopStart :=
      ⟨Nat.lt_succ_of_lt (ih h).1, (ih h).2⟩
    rw [openLoops] at h
    split at h
    · rename_i instruction here
      cases instruction with
      | act action => apply older h
      | loopStart =>
        obtain rfl | h := List.mem_cons.mp h
        · exact ⟨Nat.lt_succ_self p, here⟩
        · apply older h
      | loopEnd => apply older (List.mem_of_mem_tail h)
    · apply older h

/-- Loops that begin further in are further up on the stack. -/
theorem openLoops_decreasing (program : Program) (k : Nat) :
  (program.openLoops k).Pairwise (· > ·)
  := by
  induction k with
  | zero => apply List.Pairwise.nil
  | succ k ih =>
    rw [openLoops]
    split
    · rename_i instruction here
      cases instruction with
      | act action => apply ih
      | loopStart =>
        apply List.Pairwise.cons _ ih
        intro p hp
        apply (of_mem_openLoops hp).1
      | loopEnd => apply ih.tail
    · apply ih

/-- A loop end has at most one partner. -/
theorem Pairs.start_unique {program : Program} {p q r : Nat}
    (hp : program.Pairs p r) (hq : program.Pairs q r) :
  p = q
  := by
  have := hp.2.symm.trans hq.2
  apply Option.some.inj this

/-- The partners of a pair stand in order, and are brackets. -/
theorem Pairs.lt {program : Program} {p q : Nat} (h : program.Pairs p q) :
  p < q ∧ program[p]? = some .loopStart ∧ program[q]? = some .loopEnd
  := by
  have := of_mem_openLoops (List.mem_of_mem_head? h.2)
  exact ⟨this.1, this.2, h.1⟩

end Program

end ByteTape
