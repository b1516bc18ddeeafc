import ByteTape.Proofs.Input.Reads
import ByteTape.Proofs.Progress

/-!
# What the input has to do with the future

A program cannot notice what stands in its input behind the bytes that it has read, nor what is to
be done at the end of the input, before a read meets that end.  A step that does not meet it is the
same with further bytes behind the input and under any other policy (`step_feed`).  So are any
number of such steps, and so is a run that consists of them.

The output only grows (`Transition.bytes_prefix`).  Hence what a run has written before it fails
for want of a byte is what it writes first if there is one (`attempt_append_input`).
-/

namespace ByteTape

namespace Store

variable {eof : EofPolicy} {action : Action} {store store' : Store} {kind : Option FaultKind}

/-- A read that finds a byte finds the same one if more bytes stand behind it. -/
theorem read_append (found : store.input.read.1 ≠ none) (bytes : List UInt8)
    (eof eof' : EofPolicy) :
  (store.withInput (store.input.append bytes)).read eof' =
    ((store.read eof).1.withInput ((store.read eof).1.input.append bytes), (store.read eof).2)
  := by
  obtain ⟨tape, ⟨unread, ended⟩, output⟩ := store
  cases ended with
  | true => simp at found
  | false =>
    cases unread with
    | nil => simp at found
    | cons byte rest => rfl

/-- A write adds the current cell to what was written, and no other action adds anything. -/
theorem bytes_of_perform (effect : store.perform eof action = (store', kind)) :
  store'.output.bytes =
    if action = .write then store.output.bytes.push store.tape.current else store.output.bytes
  := by
  obtain ⟨tape, input, output⟩ := store
  cases action with
  | right =>
    simp only [perform_right, move] at effect
    split at effect
    · cases effect; rfl
    · cases effect; rfl
  | left =>
    simp only [perform_left, move] at effect
    split at effect
    · cases effect; rfl
    · cases effect; rfl
  | increment => cases effect; rfl
  | decrement => cases effect; rfl
  | write => cases effect; rfl
  | read =>
    simp only [perform_read, read_eq] at effect
    split at effect
    · cases effect; rfl
    · cases eof with
      | fail => cases effect; rfl
      | zero => cases effect; rfl
      | keep => cases effect; rfl

/-- What was written stays written. -/
theorem bytes_prefix_of_perform (effect : store.perform eof action = (store', kind)) :
  store.output.bytes.toList <+: store'.output.bytes.toList
  := by
  rw [bytes_of_perform effect]
  split
  · rw [Array.toList_push]
    apply List.prefix_append
  · apply List.prefix_refl

/-- An action that fails writes nothing. -/
theorem bytes_of_perform_failed {kind : FaultKind}
    (failed : store.perform eof action = (store', some kind)) :
  store'.output.bytes = store.output.bytes
  := by
  rw [bytes_of_perform failed, if_neg]
  rintro rfl
  cases failed

end Store

namespace Machine

variable {program : Program} {options : Options} {eof eof' : EofPolicy} {limit : UInt64}
  {m m' : Machine} {outcome : Outcome} {fault : Option Fault} {n fuel : Nat}

/-! ### Steps with further input -/

/-- A step that does not meet the end of the input is the same with further bytes behind the
input, under any policy. -/
theorem step_feed (inside : ¬ m.MeetsEnd program ⟨eof, limit⟩) (bytes : List UInt8)
    (eof' : EofPolicy) :
  (m.feed bytes).step program ⟨eof', limit⟩ =
    ((m.step program ⟨eof, limit⟩).1.feed bytes, (m.step program ⟨eof, limit⟩).2)
  := by
  by_cases reads : m.Reads program ⟨eof, limit⟩
  · have found : m.store.input.read.1 ≠ none := fun missing => inside ⟨reads, missing⟩
    have reads' : (m.feed bytes).Reads program ⟨eof', limit⟩ := reads
    have read : (m.feed bytes).store.read eof' = _ := Store.read_append found bytes eof eof'
    rw [step_of_reads reads', step_of_reads reads, read]
    rfl
  · have kept := input_step_of_not_reads reads
    have step := step_withInput_of_not_reads reads (m.store.input.append bytes) eof'
    rw [← kept] at step
    rw [feed, ← kept]
    apply step

/-- Steps that do not meet the end of the input are the same with further bytes behind the input,
under any policy. -/
theorem attempt_feed
    (inside : ∀ k < n, ¬ MeetsEnd program ⟨eof, limit⟩ (attempt program ⟨eof, limit⟩ k m).1)
    (bytes : List UInt8) (eof' : EofPolicy) :
  attempt program ⟨eof', limit⟩ n (m.feed bytes) =
    ((attempt program ⟨eof, limit⟩ n m).1.feed bytes, (attempt program ⟨eof, limit⟩ n m).2)
  := by
  induction n generalizing m with
  | zero => rfl
  | succ n ih =>
    have here : ¬ m.MeetsEnd program ⟨eof, limit⟩ := inside 0 n.succ_pos
    have others := ih (m := (m.step program ⟨eof, limit⟩).1) fun k before =>
      inside (k + 1) (Nat.succ_lt_succ before)
    simp only [attempt_succ, step_feed here, others]

/-- Running steps that do not meet the end of the input are made with further bytes behind the
input, under any policy. -/
theorem advance?_feed (advanced : advance? program ⟨eof, limit⟩ n m = some m')
    (inside : ∀ k < n, ∀ m₁, advance? program ⟨eof, limit⟩ k m = some m₁ →
      ¬ m₁.MeetsEnd program ⟨eof, limit⟩) (bytes : List UInt8) (eof' : EofPolicy) :
  advance? program ⟨eof', limit⟩ n (m.feed bytes) = some (m'.feed bytes)
  := by
  induction n generalizing m with
  | zero =>
    cases advanced
    rfl
  | succ n ih =>
    obtain ⟨next, step, advanced⟩ := exists_of_advance?_succ advanced
    have first := step_feed (inside 0 n.succ_pos m rfl) bytes eof'
    rw [step.step_eq] at first
    rw [(transition_of_step first).advance?_succ]
    apply ih advanced
    intro k before m₁ reached
    apply inside (k + 1) (Nat.succ_lt_succ before) m₁
    rw [step.advance?_succ, reached]

/-- A run that ends without meeting the end of the input ends alike with further bytes behind the
input, under any policy. -/
theorem run_feed (ended : run program ⟨eof, limit⟩ fuel m = some (m', fault))
    (inside : ∀ k m₁, advance? program ⟨eof, limit⟩ k m = some m₁ →
      ¬ m₁.MeetsEnd program ⟨eof, limit⟩) (bytes : List UInt8) (eof' : EofPolicy) :
  run program ⟨eof', limit⟩ fuel (m.feed bytes) = some (m'.feed bytes, fault)
  := by
  obtain ⟨n, before, m₁, advanced, stops⟩ := run_eq_some_iff.mp ended
  apply run_eq_some_iff.mpr
  use n, before, m₁.feed bytes
  constructor
  · apply advance?_feed advanced
    intro k _
    apply inside k
  · have last := step_feed (inside n m₁ advanced) bytes eof'
    cases stops with
    | halted step =>
      rw [step.step_eq] at last
      exact .halted (transition_of_step last)
    | failed step =>
      rw [step.step_eq] at last
      exact .failed (transition_of_step last)

/-! ### The output grows -/

/-- What was written stays written. -/
theorem Transition.bytes_prefix (step : m.Transition program options m' outcome) :
  m.store.output.bytes.toList <+: m'.store.output.bytes.toList
  := by
  cases step with
  | performed here granted effect => apply Store.bytes_prefix_of_perform effect
  | stopped here granted effect => apply Store.bytes_prefix_of_perform effect
  | _ => apply List.prefix_refl

/-- A step that fails writes nothing. -/
theorem Transition.bytes_of_failed {fault : Fault}
    (step : m.Transition program options m' (.failed fault)) :
  m'.store.output.bytes = m.store.output.bytes
  := by
  cases step with
  | stopped here granted effect => apply Store.bytes_of_perform_failed effect
  | _ => rfl

/-- What was written before a run stays written. -/
theorem bytes_prefix_of_run (ended : run program options fuel m = some (m', fault)) :
  m.store.output.bytes.toList <+: m'.store.output.bytes.toList
  := by
  apply of_run (P := fun m₁ => m.store.output.bytes.toList <+: m₁.store.output.bytes.toList)
    (Q := fun m₁ _ => m.store.output.bytes.toList <+: m₁.store.output.bytes.toList)
    _ _ _ (List.prefix_refl _) ended
  · intro m₁ m₂ before step
    apply before.trans step.bytes_prefix
  · intro m₁ before step
    apply before
  · intro m₁ m₂ fault before step
    apply before.trans step.bytes_prefix

/-! ### Reads that fail -/

/-- Where the end of the input is a fault, no running step meets it. -/
theorem Transition.not_meetsEnd (step : m.Transition program ⟨.fail, limit⟩ m' .running) :
  ¬ m.MeetsEnd program ⟨.fail, limit⟩
  := by
  rintro ⟨reads, missing⟩
  have failed := step_of_reads reads
  rw [step.step_eq, Store.read_of_eq_none missing] at failed
  cases failed

/-- Where the end of the input is a fault, running steps are made with further bytes behind the
input, under any policy. -/
theorem advance?_feed_of_fail (advanced : advance? program ⟨.fail, limit⟩ n m = some m')
    (bytes : List UInt8) (eof' : EofPolicy) :
  advance? program ⟨eof', limit⟩ n (m.feed bytes) = some (m'.feed bytes)
  := by
  apply advance?_feed advanced
  intro k before m₁ reached
  obtain ⟨left, rfl⟩ := Nat.exists_eq_add_of_lt before
  rw [Nat.add_assoc, advance?_add reached] at advanced
  obtain ⟨next, step, -⟩ := exists_of_advance?_succ advanced
  apply step.not_meetsEnd

/-! ### Programs with further input -/

/-- What stands behind the bytes that are read makes no difference, nor does the policy, before
the end of the input is met.  Let `x` be an input.  As long as the steps that a program makes on
`x` do not meet its end, the steps on `x ++ y`, under any policy, have the same outcomes and lead
to the same machine, except that `y` stands behind its unread bytes.  If a run on `x` ends and none
of its steps meets the end of the input, then the run on `x ++ y` ends in the same way.  If a run
on `x`, for which the end of the input is a fault, ends with that fault, then the run on `x ++ y`
comes to write exactly the same bytes, and if it ends it has written these first. -/
theorem attempt_append_input (program : Program) (eof eof' : EofPolicy) (limit : UInt64)
    (x y : List UInt8) :
  (∀ n, (∀ k < n,
      ¬ MeetsEnd program ⟨eof, limit⟩ (attempt program ⟨eof, limit⟩ k (.initial x)).1) →
    attempt program ⟨eof', limit⟩ n (.initial (x ++ y)) =
      ((attempt program ⟨eof, limit⟩ n (.initial x)).1.feed y,
        (attempt program ⟨eof, limit⟩ n (.initial x)).2)) ∧
  (∀ fuel m fault, run program ⟨eof, limit⟩ fuel (.initial x) = some (m, fault) →
    (∀ k m₁, advance? program ⟨eof, limit⟩ k (.initial x) = some m₁ →
      ¬ m₁.MeetsEnd program ⟨eof, limit⟩) →
    run program ⟨eof', limit⟩ fuel (.initial (x ++ y)) = some (m.feed y, fault)) ∧
  ∀ fuel m position,
    run program ⟨.fail, limit⟩ fuel (.initial x) = some (m, some ⟨.endOfInput, position⟩) →
    (∃ n m₁, advance? program ⟨eof', limit⟩ n (.initial (x ++ y)) = some m₁ ∧
      m₁.store.output.bytes = m.store.output.bytes) ∧
    ∀ fuel' m' fault, run program ⟨eof', limit⟩ fuel' (.initial (x ++ y)) = some (m', fault) →
      m.store.output.bytes.toList <+: m'.store.output.bytes.toList
  := by
  and_intros
  · intro n inside
    apply attempt_feed inside
  · intro fuel m fault ended inside
    apply run_feed ended inside
  · intro fuel m position ended
    obtain ⟨n, -, m₁, advanced, stops⟩ := run_eq_some_iff.mp ended
    have further := advance?_feed_of_fail advanced y eof'
    cases stops with
    | failed step =>
      have written : (m₁.feed y).store.output.bytes = m.store.output.bytes :=
        step.bytes_of_failed.symm
      constructor
      · use n, m₁.feed y, further
      · intro fuel' m' fault ended'
        have ended' := run_mono (Nat.le_add_left fuel' n) ended'
        have rest : run program ⟨eof', limit⟩ fuel' (m₁.feed y) = some (m', fault) :=
          (run_add further fuel').symm.trans ended'
        rw [← written]
        apply bytes_prefix_of_run rest

/-- The program `,.,.`, which copies two bytes. -/
def copyTwo : Program :=
  #[.act .read, .act .write, .act .read, .act .write]

/-- The last byte may be taken without meeting the end, and no value of a byte stands for the
end.  With two bytes the program does not meet the end, so a third one makes no difference; with
one byte it fails, having written the byte that it also writes first if there are two. -/
theorem attempt_append_input_copyTwo :
  attempt copyTwo ⟨.zero, 0⟩ 4 (.initial ([255, 0] ++ [7])) =
    ((attempt copyTwo ⟨.fail, 0⟩ 4 (.initial [255, 0])).1.feed [7],
      [.running, .running, .running, .running]) ∧
  (∃ m, run copyTwo ⟨.fail, 0⟩ 5 (.initial [255, 0]) = some (m, none) ∧
    run copyTwo ⟨.zero, 0⟩ 5 (.initial ([255, 0] ++ [7])) = some (m.feed [7], none)) ∧
  ∃ m, run copyTwo ⟨.fail, 0⟩ 3 (.initial [255]) = some (m, some ⟨.endOfInput, 2⟩) ∧
    ∀ fuel m' fault, run copyTwo ⟨.keep, 0⟩ fuel (.initial ([255] ++ [0])) = some (m', fault) →
      m.store.output.bytes.toList <+: m'.store.output.bytes.toList
  := by
  obtain ⟨steps, ends, -⟩ := attempt_append_input copyTwo .fail .zero 0 [255, 0] [7]
  obtain ⟨-, -, fails⟩ := attempt_append_input copyTwo .fail .keep 0 [255] [0]
  and_intros
  · apply steps 4
    decide
  · have ended : run copyTwo ⟨.fail, 0⟩ 5 (.initial [255, 0]) =
        some (⟨_, 4, [], 4⟩, none) := rfl
    refine ⟨_, ended, ends 5 _ _ ended ?_⟩
    intro k m₁ advanced
    rcases k with _ | _ | _ | _ | _ | k
    · cases advanced; decide
    · cases advanced; decide
    · cases advanced; decide
    · cases advanced; decide
    · cases advanced; decide
    · cases advanced
  · have ended : run copyTwo ⟨.fail, 0⟩ 3 (.initial [255]) =
        some (⟨_, 3, [], 3⟩, some ⟨.endOfInput, 2⟩) := rfl
    exact ⟨_, ended, (fails 3 _ 2 ended).2⟩

end Machine

end ByteTape
