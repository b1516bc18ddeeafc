import ByteTape.Proofs.Nesting
import ByteTape.Proofs.Session.Commands

/-!
# Brackets in a session

A fault does not end a session.  A machine that meets a loop without an end at a zero fails, but
it has passed the beginning of that loop and goes on inside it, without running it.  From then on
the loops that are being run are not those that are open at the position.

All that can be missing, however, are loops without an end (`AllButStray`).  No loop end is the
end of such a loop, so at a loop end the innermost loop that is being run is the one that ends
there, whatever else is missing below it (`NearlyFits.loopEnd`).  Every step keeps this, a step
that fails too (`NearlyFits.next`), and so do all commands of a session that do not replace parts
of the state.  Hence the search for the end of a loop and the stack of loops agree throughout a
session (`brackets_of_performAll`).
-/

namespace ByteTape

namespace Machine

variable {program : Program} {options : Options} {m m' : Machine} {outcome : Outcome}
  {loops full : List Nat} {start : Nat}

/-- The loops are those of a list but for some that have no end. -/
structure AllButStray (program : Program) (loops full : List Nat) : Prop where
  sublist : loops.Sublist full
  stray : ∀ start ∈ full, start ∉ loops → program.StrayStart start

theorem allButStray_nil (program : Program) :
  AllButStray program [] []
  where
  sublist := .slnil
  stray _ h := absurd h List.not_mem_nil

/-- A loop that is being run on top of the others. -/
theorem AllButStray.cons (but : AllButStray program loops full) (start : Nat) :
  AllButStray program (start :: loops) (start :: full)
  where
  sublist := but.sublist.cons_cons start
  stray p within missing := by
    obtain rfl | deeper := List.mem_cons.mp within
    · apply absurd List.mem_cons_self missing
    · apply but.stray p deeper
      intro running
      apply missing (List.mem_cons_of_mem start running)

/-- A loop without an end that is open on top of the others and is not being run. -/
theorem AllButStray.omit (but : AllButStray program loops full)
    (stray : program.StrayStart start) :
  AllButStray program loops (start :: full)
  where
  sublist := but.sublist.cons start
  stray p within missing := by
    obtain rfl | deeper := List.mem_cons.mp within
    · apply stray
    · apply but.stray p deeper missing

/-- If the uppermost loop has an end then it is being run. -/
theorem AllButStray.exists_cons (but : AllButStray program loops (start :: full))
    (ended : ¬ program.StrayStart start) (once : start ∉ full) :
  ∃ outer, loops = start :: outer ∧ AllButStray program outer full
  := by
  obtain ⟨sublist, stray⟩ := but
  cases sublist with
  | cons _ deeper =>
    apply absurd (stray start List.mem_cons_self _) ended
    intro running
    apply once (deeper.subset running)
  | @cons_cons outer _ _ deeper =>
    use outer, rfl, deeper
    intro p within missing
    apply stray p (List.mem_cons_of_mem start within)
    intro running
    obtain rfl | running := List.mem_cons.mp running
    · apply once within
    · apply missing running

/-- The loops that are being run fit the position but for loops without an end. -/
inductive NearlyFits (program : Program) (m : Machine) : Prop where
  | inside (but : AllButStray program m.loops (program.openLoops m.position))
  /-- The machine went back to the beginning of a loop and will begin another round of it. -/
  | back {closing : Nat} (pair : program.Pairs m.position closing)
      (nonzero : m.store.tape.current ≠ 0)
      (but : AllButStray program m.loops (m.position :: program.openLoops m.position))

/-! ### Where the machine is -/

theorem nearlyFits_initial (program : Program) (input : List UInt8) :
  NearlyFits program (.initial input)
  := .inside (allButStray_nil program)

/-- Away from loop beginnings only loops without an end are missing. -/
theorem NearlyFits.allButStray (fits : NearlyFits program m)
    (away : program[m.position]? ≠ some .loopStart) :
  AllButStray program m.loops (program.openLoops m.position)
  := by
  cases fits with
  | inside but => apply but
  | back pair _ _ => apply absurd pair.lt.2.1 away

/-- At a zero only loops without an end are missing. -/
theorem NearlyFits.allButStray_of_zero (fits : NearlyFits program m)
    (zero : m.store.tape.current = 0) :
  AllButStray program m.loops (program.openLoops m.position)
  := by
  cases fits with
  | inside but => apply but
  | back _ nonzero _ => apply absurd zero nonzero

/-- At a loop end no loop is being run if the loop end is stray; otherwise the innermost loop that
is being run is the one that ends there. -/
theorem NearlyFits.loopEnd (fits : NearlyFits program m)
    (here : program[m.position]? = some .loopEnd) :
  (program.StrayEnd m.position ∧ m.loops = []) ∨
    ∃ start outer, program.Pairs start m.position ∧ m.loops = start :: outer ∧
      AllButStray program outer (program.openLoops start)
  := by
  have but := fits.allButStray (by simp [here])
  cases opened : program.openLoops m.position with
  | nil =>
    left
    rw [opened] at but
    use ⟨here, opened⟩, List.sublist_nil.mp but.sublist
  | cons start outer =>
    right
    have pair : program.Pairs start m.position := ⟨here, by simp [opened]⟩
    rw [pair.openLoops_finish] at but
    obtain ⟨outer, same, deeper⟩ := but.exists_cons pair.not_strayStart
      (Program.not_mem_openLoops_self start)
    use start, outer, pair, same

/-- A loop that is entered is put on the stack once. -/
theorem NearlyFits.enter (fits : NearlyFits program m) :
  AllButStray program (enter m.position m.loops) (m.position :: program.openLoops m.position)
  := by
  have once : m.position ∉ program.openLoops m.position := Program.not_mem_openLoops_self _
  cases fits with
  | inside but =>
    have fresh : m.loops.head? ≠ some m.position := by
      intro top
      apply once (but.sublist.subset (List.mem_of_mem_head? top))
    rw [Machine.enter, if_neg fresh]
    apply but.cons
  | back pair _ but =>
    obtain ⟨outer, same, deeper⟩ := but.exists_cons pair.not_strayStart once
    rw [same, enter_same]
    apply deeper.cons

/-! ### What a step keeps -/

/-- Every step keeps the fit but for loops without an end, whether it fails or not. -/
theorem NearlyFits.next (fits : NearlyFits program m)
    (step : m.Transition program options m' outcome) :
  NearlyFits program m'
  := by
  cases step with
  | halted past closed => apply fits
  | leftOpen past still => apply fits
  | refused inside exhausted => apply fits
  | performed here granted effect =>
    apply NearlyFits.inside
    rw [Program.openLoops_act here]
    apply fits.allButStray (by simp [here])
  | stopped here granted effect =>
    apply NearlyFits.inside
    rw [Program.openLoops_act here]
    apply fits.allButStray (by simp [here])
  | skipped here granted zero found =>
    have pair := (Program.closing?_eq_some_iff here).mp found
    apply NearlyFits.inside
    rw [pair.openLoops_succ_finish]
    apply fits.allButStray_of_zero zero
  | unended here granted zero missing =>
    have stray := (Program.closing?_eq_none_iff here).mp missing
    apply NearlyFits.inside
    rw [Program.openLoops_loopStart here]
    apply (fits.allButStray_of_zero zero).omit stray
  | entered here granted nonzero =>
    apply NearlyFits.inside
    rw [Program.openLoops_loopStart here]
    apply fits.enter
  | unbegun here granted closed =>
    obtain ⟨stray, -⟩ | ⟨start, outer, -, same, -⟩ := fits.loopEnd here
    · apply NearlyFits.inside
      rw [Program.openLoops_loopEnd here, stray.2]
      apply allButStray_nil
    · simp [closed] at same
  | left here granted still zero =>
    obtain ⟨-, none⟩ | ⟨start, outer, pair, same, deeper⟩ := fits.loopEnd here
    · simp [still] at none
    · obtain ⟨rfl, rfl⟩ := List.cons.inj (still.symm.trans same)
      apply NearlyFits.inside
      rw [pair.openLoops_succ_finish]
      apply deeper
  | repeated here granted still nonzero =>
    obtain ⟨-, none⟩ | ⟨start, outer, pair, same, deeper⟩ := fits.loopEnd here
    · simp [still] at none
    · obtain ⟨rfl, rfl⟩ := List.cons.inj (still.symm.trans same)
      apply NearlyFits.back pair
      · apply nonzero
      · apply deeper.cons

/-- A loop that is said to have no end has none. -/
theorem NearlyFits.strayStart (fits : NearlyFits program m)
    (step : m.Transition program options m' (.failed ⟨.unclosedLoop, start⟩)) :
  program.StrayStart start
  := by
  cases step with
  | leftOpen past still =>
    have but := fits.allButStray (by simp [Array.getElem?_eq_none past])
    rw [← Program.mem_openLoops_size_iff, ← Program.openLoops_of_size_le past]
    apply but.sublist.subset
    rw [still]
    apply List.mem_cons_self
  | stopped here granted effect =>
    obtain ⟨-, other⟩ | ⟨-, other⟩ := Store.kind_of_perform effect
    · cases other
    · cases other
  | unended here granted zero missing => apply (Program.closing?_eq_none_iff here).mp missing

/-- The input and the output have no part in the fit. -/
theorem NearlyFits.exchange (fits : NearlyFits program m) (input : Input) (output : Output) :
  NearlyFits program { m with store := ⟨m.store.tape, input, output⟩ }
  := by
  cases fits with
  | inside but => exact .inside but
  | back pair nonzero but => exact .back pair nonzero but

/-- A run keeps the fit, however it ends, and a loop that it says to have no end has none. -/
theorem NearlyFits.of_run {fuel : Nat} {fault : Option Fault} (fits : NearlyFits program m)
    (ended : run program options fuel m = some (m', fault)) :
  NearlyFits program m' ∧
    ∀ start, fault = some ⟨.unclosedLoop, start⟩ → program.StrayStart start
  := by
  obtain ⟨n, -, m₁, advanced, stops⟩ := run_eq_some_iff.mp ended
  have fits₁ := of_advance? NearlyFits.next fits advanced
  cases stops with
  | halted step =>
    constructor
    · apply fits₁.exchange
    · intro start none
      cases none
  | failed step =>
    constructor
    · apply fits₁.next step
    · rintro start ⟨⟩
      apply fits₁.strayStart step

end Machine

namespace Session

variable {program : Program} {fuel : Nat} {command : Command} {session session' : Session}
  {reply : Reply}

/-- A session about a program in which only loops without an end are missing. -/
def NearlyFits (program : Program) (session : Session) : Prop :=
  session.program = program ∧ Machine.NearlyFits program session.machine

/-- A command that replaces nothing keeps the fit, and a loop that it says to have no end has
none. -/
theorem NearlyFits.perform (fits : NearlyFits program session)
    (unpatched : ∀ patch, command ≠ .patch patch)
    (performed : perform fuel command session = some (session', reply)) :
  NearlyFits program session' ∧
    ∀ start, reply.fault? = some ⟨.unclosedLoop, start⟩ → program.StrayStart start
  := by
  obtain ⟨rfl, fits⟩ := fits
  cases command with
  | step =>
    obtain ⟨m, outcome, step, rfl, rfl⟩ := perform_step_iff.mp performed
    constructor
    · exact ⟨rfl, fits.next step⟩
    · intro start reported
      cases outcome with
      | running => cases reported
      | halted => cases reported
      | failed fault =>
        cases reported
        apply fits.strayStart step
  | run =>
    obtain ⟨m, fault, ended, rfl, rfl⟩ := perform_run_iff.mp performed
    obtain ⟨kept, stray⟩ := fits.of_run ended
    exact ⟨⟨rfl, kept⟩, stray⟩
  | configure eof maxSteps =>
    cases performed
    constructor
    · exact ⟨rfl, fits⟩
    · intro start none
      cases none
  | feed clear bytes =>
    cases performed
    constructor
    · use rfl
      cases clear with
      | false => apply fits.exchange
      | true => apply fits.exchange
    · intro start none
      cases none
  | patch patch => apply absurd rfl (unpatched patch)

/-- Wherever a session has come to, and however far a run goes from there, a loop end fails
exactly if it has no beginning.  Otherwise the innermost loop that is being run is one whose end
the search finds there, and the loop end leaves that loop or goes back to its beginning.  All
loop beginnings that were said to have no end have none.  This is so whatever faults have
happened before, and whatever was fed or configured. -/
theorem brackets_of_performAll {options : Options} {input : List UInt8}
    {commands : List Command} {replies : List Reply} (unpatched : ∀ patch, .patch patch ∉ commands)
    (carriedOut :
      performAll fuel commands (.start program options input) = some (session, replies)) :
  (∀ n m, Machine.advance? program session.options n session.machine = some m →
    program[m.position]? = some .loopEnd → session.options.exhausted m.steps = false →
    ((m.step program session.options).2 = .failed ⟨.unopenedLoop, m.position⟩ ↔
      program.StrayEnd m.position) ∧
    (¬ program.StrayEnd m.position → ∃ start outer, m.loops = start :: outer ∧
      program[start]? = some .loopStart ∧ program.closing? (start + 1) = some m.position ∧
      m.step program session.options =
        (if m.store.tape.current = 0 then ⟨m.store, m.position + 1, outer, m.steps + 1⟩
          else ⟨m.store, start, start :: outer, m.steps + 1⟩, .running))) ∧
  ∀ reply ∈ replies, ∀ start, reply.fault? = some ⟨.unclosedLoop, start⟩ →
    program.StrayStart start
  := by
  have beginning : NearlyFits program (.start program options input) :=
    ⟨rfl, Machine.nearlyFits_initial program input⟩
  obtain ⟨⟨-, fits⟩, reported⟩ := of_performAll (P := NearlyFits program)
    (fun command among _ _ _ fits => fits.perform fun patch same => unpatched patch (same ▸ among))
    beginning carriedOut
  refine ⟨?_, reported⟩
  intro n m advanced here granted
  have fits := Machine.of_advance? Machine.NearlyFits.next fits advanced
  obtain ⟨stray, none⟩ | ⟨start, outer, pair, same, -⟩ := fits.loopEnd here
  · have step := Machine.Transition.unbegun here granted none
    rw [step.step_eq]
    exact ⟨⟨fun _ => stray, fun _ => rfl⟩, fun paired => absurd stray paired⟩
  · have paired := pair.not_strayEnd pair.lt.1 (Nat.le_refl m.position)
    have step : m.step program session.options =
        (if m.store.tape.current = 0 then ⟨m.store, m.position + 1, outer, m.steps + 1⟩
          else ⟨m.store, start, start :: outer, m.steps + 1⟩, .running) := by
      split
      · rename_i zero
        apply (Machine.Transition.left here granted same zero).step_eq
      · rename_i nonzero
        apply (Machine.Transition.repeated here granted same nonzero).step_eq
    have found := (Program.closing?_eq_some_iff pair.lt.2.1).mpr pair
    constructor
    · rw [step]
      constructor
      · intro failed
        cases failed
      · intro stray
        apply absurd stray paired
    · intro _
      exact ⟨start, outer, same, pair.lt.2.1, found, step⟩

/-- The program `[+[-]`, whose first loop beginning has no end. -/
def missed : Program :=
  #[.loopStart, .act .increment, .loopStart, .act .decrement, .loopEnd]

/-- A session that goes on behind the first loop beginning, which fails.  At the loop end only the
second loop is being run, though both are open. -/
theorem brackets_of_missed :
  missed.StrayStart 0 ∧ missed.openLoops 4 = [2, 0] ∧
  ∃ m : Machine, m.loops = [2] ∧ m.step missed {} = (⟨m.store, 5, [], 4 + 1⟩, .running)
  := by
  have carriedOut : performAll 0 [.step, .step, .step, .step] (.start missed {} []) =
      some (⟨missed, {}, ⟨_, 4, [2], 4⟩⟩,
        [.stepped (.failed ⟨.unclosedLoop, 0⟩), .stepped .running, .stepped .running,
          .stepped .running]) := rfl
  obtain ⟨agreed, reported⟩ := brackets_of_performAll (by simp) carriedOut
  use reported _ List.mem_cons_self 0 rfl, by decide
  obtain ⟨-, paired⟩ := agreed 0 _ rfl rfl rfl
  obtain ⟨start, outer, same, -, -, step⟩ := paired (by decide)
  cases same
  exact ⟨_, rfl, step⟩

end Session

end ByteTape
