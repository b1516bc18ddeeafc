import ByteTape.Proofs.Input.Reads
import Mathlib.Tactic.Use

/-!
# Zeros behind the input

If a read at the end of the input is to store a zero, then the input might as well go on with
zeros.  A step that takes a byte of the input takes the same byte if zeros stand behind it; a step
that meets the end stores a zero, as it would if it took one of those (`step_padded`).  A step uses
up one zero at most, so there are enough of them if there are as many as steps are made
(`attempt_append_zeros`).

Once the end has been met it is met by every later read, while the zeros have to be taken one by
one.  That comes to the same because the end is met only when no byte is left
(`Input.EndsEmpty`), which further input could change.
-/

namespace ByteTape

namespace Input

/-- If a read has met the end of the input then no byte is left. -/
def EndsEmpty (input : Input) : Prop :=
  input.ended = true → input.unread = []

/-- The unread bytes of an input and some zeros behind them. -/
def padded (zeros : Nat) (input : Input) : Input :=
  .ofList (input.unread ++ List.replicate zeros 0)

theorem endsEmpty_ofList (bytes : List UInt8) :
  (ofList bytes).EndsEmpty
  := by
  intro ended
  cases ended

theorem EndsEmpty.read {input : Input} (empty : input.EndsEmpty) :
  input.read.2.EndsEmpty
  := by
  obtain ⟨unread, ended⟩ := input
  cases unread with
  | nil =>
    rw [read_nil]
    intro _
    rfl
  | cons byte rest =>
    cases ended with
    | true => cases empty rfl
    | false => apply endsEmpty_ofList rest

end Input

/-- A read that takes a zero from behind the input does what a read at the end of the input does if
that is to store a zero. -/
theorem Store.read_padded {store : Store} (empty : store.input.EndsEmpty) (zeros : Nat)
    (eof : EofPolicy) :
  ∃ left, zeros ≤ left ∧
    (store.withInput (store.input.padded (zeros + 1))).read eof =
      ((store.read .zero).1.withInput ((store.read .zero).1.input.padded left),
        (store.read .zero).2)
  := by
  obtain ⟨tape, ⟨unread, ended⟩, output⟩ := store
  cases unread with
  | nil =>
    use zeros, Nat.le_refl zeros
    have missing : (Input.read ⟨[], ended⟩).1 = none := by rw [Input.read_nil]
    rw [read_of_eq_none missing .zero]
    rfl
  | cons byte rest =>
    cases ended with
    | true => cases empty rfl
    | false =>
      use zeros + 1, Nat.le_succ zeros
      rfl

namespace Machine

variable {program : Program} {options : Options} {limit : UInt64} {m : Machine}

/-- A machine with zeros behind its input. -/
def padded (zeros : Nat) (m : Machine) : Machine :=
  m.withInput (m.store.input.padded zeros)

theorem endsEmpty_step (empty : m.store.input.EndsEmpty) :
  (m.step program options).1.store.input.EndsEmpty
  := by
  by_cases reads : m.Reads program options
  · rw [step_of_reads reads, Store.input_read]
    apply empty.read
  · rw [input_step_of_not_reads reads]
    apply empty

/-- A step under the policy that stores a zero is a step with zeros behind the input, under any
policy, and takes one of them at most. -/
theorem step_padded (program : Program) (limit : UInt64) (empty : m.store.input.EndsEmpty)
    (zeros : Nat) (eof : EofPolicy) :
  ∃ left, zeros ≤ left ∧
    (m.padded (zeros + 1)).step program ⟨eof, limit⟩ =
      ((m.step program ⟨.zero, limit⟩).1.padded left, (m.step program ⟨.zero, limit⟩).2)
  := by
  by_cases reads : m.Reads program ⟨.zero, limit⟩
  · obtain ⟨left, enough, read⟩ := Store.read_padded empty zeros eof
    have reads' : (m.padded (zeros + 1)).Reads program ⟨eof, limit⟩ := reads
    have read : (m.padded (zeros + 1)).store.read eof = _ := read
    use left, enough
    rw [step_of_reads reads', step_of_reads reads, read]
    rfl
  · use zeros + 1, Nat.le_succ zeros
    rw [padded, padded, input_step_of_not_reads reads]
    apply step_withInput_of_not_reads reads

/-- Steps under the policy that stores a zero are steps with as many zeros behind the input, under
any policy. -/
theorem attempt_padded {n zeros : Nat} (enough : n ≤ zeros) (empty : m.store.input.EndsEmpty)
    (eof : EofPolicy) :
  ∃ left, attempt program ⟨eof, limit⟩ n (m.padded zeros) =
    ((attempt program ⟨.zero, limit⟩ n m).1.padded left,
      (attempt program ⟨.zero, limit⟩ n m).2)
  := by
  induction n generalizing m zeros with
  | zero =>
    use zeros
    rfl
  | succ n ih =>
    obtain ⟨zeros, rfl⟩ := Nat.exists_eq_add_of_le' (Nat.lt_of_lt_of_le n.succ_pos enough)
    obtain ⟨stock, kept, first⟩ := step_padded program limit empty zeros eof
    have empty' : (m.step program ⟨.zero, limit⟩).1.store.input.EndsEmpty := endsEmpty_step empty
    obtain ⟨left, others⟩ := ih (Nat.le_trans (Nat.le_of_succ_le_succ enough) kept) empty'
    use left
    simp only [attempt_succ, first, others]

/-- Storing a zero at the end of the input is having zeros there.  Under that policy the first `n`
steps that a program makes on an input have the same outcomes as those that it makes, under any
policy, on that input with at least `n` zeros behind it, and lead to the same machine, except that
zeros are left behind the unread bytes. -/
theorem attempt_append_zeros (program : Program) (limit : UInt64) (input : List UInt8)
    (eof : EofPolicy) {n zeros : Nat} (enough : n ≤ zeros) :
  ∃ left, attempt program ⟨eof, limit⟩ n (.initial (input ++ List.replicate zeros 0)) =
    ((attempt program ⟨.zero, limit⟩ n (.initial input)).1.withInput
        (.ofList ((attempt program ⟨.zero, limit⟩ n (.initial input)).1.store.input.unread ++
          List.replicate left 0)),
      (attempt program ⟨.zero, limit⟩ n (.initial input)).2)
  := by
  have beginning : (Machine.initial input).store.input.EndsEmpty := Input.endsEmpty_ofList input
  apply attempt_padded enough beginning eof

/-- The program `+[,.]`, which copies bytes until it has copied a zero. -/
def copyThroughZero : Program :=
  #[.act .increment, .loopStart, .act .read, .act .write, .loopEnd]

/-- With ten zeros behind its only byte the program halts where it would under the policy that
stores a zero, having written the byte and a zero. -/
theorem attempt_append_zeros_copyThroughZero :
  10 ≤ 10 ∧ ∃ m, attempt copyThroughZero ⟨.keep, 0⟩ 10 (.initial ([255] ++ List.replicate 10 0)) =
      (m, List.replicate 9 .running ++ [.halted]) ∧
    m.store.output.bytes = #[255, 0]
  := by
  use Nat.le_refl 10
  obtain ⟨left, same⟩ := attempt_append_zeros copyThroughZero 0 [255] .keep (Nat.le_refl 10)
  rw [same]
  have outcomes : (attempt copyThroughZero ⟨.zero, 0⟩ 10 (.initial [255])).2 =
      List.replicate 9 .running ++ [.halted] := by decide
  have written : (attempt copyThroughZero ⟨.zero, 0⟩ 10 (.initial [255])).1.store.output.bytes =
      #[255, 0] := by decide
  exact ⟨_, Prod.ext rfl outcomes, written⟩

end Machine

end ByteTape
