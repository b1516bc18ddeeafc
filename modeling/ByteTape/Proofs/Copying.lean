import ByteTape.Proofs.Input.Causality

/-!
# A program that copies its input

The program `,[.,]` reads a byte and, unless that is zero, writes it and reads the next one.  It has
two reads, and what it does at either depends only on what the read stores: a zero ends the program,
any other byte is written (`Reading.ends`, `Reading.next`).  So it copies what stands before the
first zero (`Reading.advance?`).

If there is no zero, the policy for the end of the input decides (`run_copy`).  A zero may be stored
there, which ends the program; the read may be a fault; or the last byte stays in the cell, and then
it is written again and again.
-/

namespace ByteTape

namespace Machine

/-- The program `,[.,]`. -/
def copy : Program :=
  #[.act .read, .loopStart, .act .write, .act .read, .loopEnd]

/-- `Reading written m`: the next instruction of the program is a read, and some bytes have been
written. -/
inductive Reading : (written : Bytes) → Machine → Prop where
  /-- The first read, on a blank tape. -/
  | first {store : Store} {steps : UInt64} (zero : store.tape.current = 0)
      (bytes : store.output.bytes = #[]) :
    Reading #[] ⟨store, 0, [], steps⟩
  /-- The read in the loop, with the byte that was written last in the cell. -/
  | again {written : Bytes} {store : Store} {steps : UInt64} (nonzero : store.tape.current ≠ 0)
      (bytes : store.output.bytes = written) (some : written ≠ #[]) :
    Reading written ⟨store, 3, [1], steps⟩

variable {eof : EofPolicy} {m : Machine} {written : Bytes} {store' : Store}
  {front rest : List UInt8}

theorem reading_initial (input : List UInt8) :
  Reading #[] (.initial input)
  := .first Tape.current_blank rfl

/-! ### What comes of a read -/

theorem Reading.here (reading : Reading written m) :
  copy[m.position]? = some (.act .read)
  := by
  cases reading with
  | first => rfl
  | again => rfl

theorem Reading.bytes_eq (reading : Reading written m) :
  m.store.output.bytes = written
  := by
  cases reading with
  | first _ bytes => apply bytes
  | again _ bytes _ => apply bytes

theorem Reading.read (reading : Reading written m)
    (effect : m.store.perform eof .read = (store', none)) :
  m.Transition copy ⟨eof, 0⟩ ⟨store', m.position + 1, m.loops, m.steps + 1⟩ .running
  := .performed reading.here (Options.exhausted_unlimited eof _) effect

/-- A byte other than zero is written, and then the next one is to be read. -/
theorem Reading.next (reading : Reading written m)
    (effect : m.store.perform eof .read = (store', none)) (nonzero : store'.tape.current ≠ 0) :
  ∃ n steps, 0 < n ∧ advance? copy ⟨eof, 0⟩ n m = some ⟨store'.write, 3, [1], steps⟩ ∧
    Reading (written.push store'.tape.current) ⟨store'.write, 3, [1], steps⟩
  := by
  have kept := Store.bytes_of_perform effect
  rw [if_neg (by simp), reading.bytes_eq] at kept
  have read := reading.read effect
  have tested : ∃ n loops steps, advance? copy ⟨eof, 0⟩ n m = some ⟨store', 1, loops, steps⟩ ∧
      enter 1 loops = [1] := by
    cases reading with
    | first => exact ⟨1, [], _, read.advance?_succ 0, rfl⟩
    | @again _ _ steps _ _ _ =>
      have repeated : Transition copy ⟨eof, 0⟩ ⟨store', 4, [1], steps + 1⟩
          ⟨store', 1, [1], steps + 1 + 1⟩ .running :=
        .repeated rfl (Options.exhausted_unlimited eof _) rfl nonzero
      exact ⟨2, [1], _, (read.advance?_succ 1).trans (repeated.advance?_succ 0), enter_same 1 []⟩
  obtain ⟨n, loops, steps, advanced, enters⟩ := tested
  have entered : Transition copy ⟨eof, 0⟩ ⟨store', 1, loops, steps⟩
      ⟨store', 2, enter 1 loops, steps + 1⟩ .running :=
    .entered rfl (Options.exhausted_unlimited eof _) nonzero
  have wrote : Transition copy ⟨eof, 0⟩ ⟨store', 2, [1], steps + 1⟩
      ⟨store'.write, 3, [1], steps + 1 + 1⟩ .running :=
    .performed rfl (Options.exhausted_unlimited eof _) rfl
  use n + 2, steps + 1 + 1, Nat.succ_pos _
  constructor
  · rw [advance?_add advanced, entered.advance?_succ, enters]
    apply wrote.advance?_succ
  · apply Reading.again
    · apply nonzero
    · rw [← kept]
      rfl
    · simp

/-- A zero ends the program. -/
theorem Reading.ends (reading : Reading written m)
    (effect : m.store.perform eof .read = (store', none)) (zero : store'.tape.current = 0) :
  ∃ m', run copy ⟨eof, 0⟩ 3 m = some (m', none) ∧ m'.store.output.bytes = written
  := by
  have kept := Store.bytes_of_perform effect
  rw [if_neg (by simp), reading.bytes_eq] at kept
  have read := reading.read effect
  have ended : ∃ steps, Transition copy ⟨eof, 0⟩
      ⟨store', m.position + 1, m.loops, m.steps + 1⟩ ⟨store', 5, [], steps⟩ .running := by
    cases reading with
    | first => exact ⟨_, .skipped rfl (Options.exhausted_unlimited eof _) zero rfl⟩
    | again => exact ⟨_, .left rfl (Options.exhausted_unlimited eof _) rfl zero⟩
  obtain ⟨steps, ended⟩ := ended
  have halted : Stops copy ⟨eof, 0⟩ ⟨store', 5, [], steps⟩ ⟨store'.flush, 5, [], steps⟩ none :=
    .halted (.halted (Nat.le_refl 5) rfl)
  have advanced := (read.advance?_succ 1).trans (ended.advance?_succ 0)
  exact ⟨_, (run_add advanced 1).trans (halted.run_succ 0), kept⟩

/-- A read that fails is the first one if nothing has been written, and else the one in the
loop. -/
theorem Reading.fails (reading : Reading written m) {kind : FaultKind}
    (effect : m.store.perform eof .read = (store', some kind)) :
  ∃ m', run copy ⟨eof, 0⟩ 1 m = some (m', some ⟨kind, if written = #[] then 0 else 3⟩) ∧
    m'.store.output.bytes = written
  := by
  have kept := Store.bytes_of_perform_failed effect
  rw [reading.bytes_eq] at kept
  have place : m.position = if written = #[] then 0 else 3 := by
    cases reading with
    | first => rfl
    | again _ _ some => rw [if_neg some]
  have stopped : m.Transition copy ⟨eof, 0⟩ _ (.failed ⟨kind, m.position⟩) :=
    .stopped reading.here (Options.exhausted_unlimited eof _) effect
  rw [← place]
  exact ⟨_, (Stops.failed stopped).run_succ 0, kept⟩

/-! ### Copying -/

/-- A read takes the first of the bytes that are left. -/
theorem perform_read_of_cons {byte : UInt8} (left : m.store.input = .ofList (byte :: rest)) :
  m.store.perform eof .read = (⟨m.store.tape.put byte, .ofList rest, m.store.output.flush⟩, none)
  := by
  apply Store.read_of_eq_some
  rw [left]
  rfl

/-- The bytes before the first zero are copied. -/
theorem Reading.advance? (reading : Reading written m)
    (left : m.store.input = .ofList (front ++ rest)) (nonzero : 0 ∉ front) :
  ∃ n m', advance? copy ⟨eof, 0⟩ n m = some m' ∧ Reading (written ++ front.toArray) m' ∧
    m'.store.input = .ofList rest
  := by
  induction front generalizing written m with
  | nil =>
    use 0, m, rfl
    simpa using ⟨reading, left⟩
  | cons byte front ih =>
    rw [List.mem_cons, not_or] at nonzero
    obtain ⟨first, later⟩ := nonzero
    obtain ⟨n, steps, -, advanced, reading'⟩ :=
      reading.next (perform_read_of_cons left) (by simpa using Ne.symm first)
    obtain ⟨k, m', following, reading'', left'⟩ := ih reading' rfl later
    use n + k, m'
    rw [advance?_add advanced]
    have joined : written.push byte ++ front.toArray = written ++ (byte :: front).toArray := by
      apply Array.ext'
      simp
    rw [Tape.current_put, joined] at reading''
    use following, reading'', left'

/-! ### The end of the input -/

/-- A read that finds no byte left. -/
theorem perform_read_of_nil {ended : Bool} (left : m.store.input = ⟨[], ended⟩)
    (eof : EofPolicy) :
  m.store.perform eof .read =
    (⟨if eof = .zero then m.store.tape.put 0 else m.store.tape, ⟨[], true⟩,
      m.store.output.flush⟩, if eof = .fail then some .endOfInput else none)
  := by
  have missing : m.store.input.read.1 = none := by rw [left, Input.read_nil]
  have spent := Store.read_of_eq_none missing eof
  rw [left] at spent
  apply spent

/-- If the last byte stays in the cell then it is written for ever. -/
theorem Reading.advance?_keep (reading : Reading written m) (any : written ≠ #[]) {ended : Bool}
    (left : m.store.input = ⟨[], ended⟩) (n : Nat) :
  ∃ m', Machine.advance? copy ⟨.keep, 0⟩ n m = some m'
  := by
  have recurs {m : Machine} :
      (∃ written ended, Reading written m ∧ written ≠ #[] ∧ m.store.input = ⟨[], ended⟩) →
      ∃ n m', 0 < n ∧ Machine.advance? copy ⟨.keep, 0⟩ n m = some m' ∧
        (∃ written ended, Reading written m' ∧ written ≠ #[] ∧ m'.store.input = ⟨[], ended⟩) ∧
        ∀ k < n, ∀ m₁, Machine.advance? copy ⟨.keep, 0⟩ k m = some m₁ → True := by
    rintro ⟨written, ended, reading, any, left⟩
    have nonzero : m.store.tape.current ≠ 0 := by
      cases reading with
      | first zero bytes => apply absurd rfl any
      | again nonzero bytes any => apply nonzero
    obtain ⟨n, steps, positive, advanced, reading'⟩ :=
      reading.next (perform_read_of_nil left .keep) nonzero
    refine ⟨n, _, positive, advanced, ⟨_, true, reading', ?_, rfl⟩, fun _ _ _ _ => trivial⟩
    simp
  obtain ⟨m', advanced, -⟩ :=
    exists_advance?_of_recurs recurs ⟨written, ended, reading, any, left⟩ n
  use m', advanced

/-! ### Whole runs -/

/-- A run of the program on an input ends, with a fault or without, and has written some bytes. -/
def Copies (eof : EofPolicy) (input : List UInt8) (fault : Option Fault) (written : List UInt8) :
    Prop :=
  ∃ fuel m, run copy ⟨eof, 0⟩ fuel (.initial input) = some (m, fault) ∧
    m.store.output.bytes = written.toArray

theorem takeWhile_append_of_not_mem (nonzero : 0 ∉ front) (rest : List UInt8) :
  (front ++ rest).takeWhile (· ≠ 0) = front ++ rest.takeWhile (· ≠ 0)
  := by
  apply List.takeWhile_append_of_pos
  intro byte among
  rw [decide_eq_true_iff]
  rintro rfl
  apply nonzero among

/-- The bytes before the first zero are copied, and then the zero ends the program. -/
theorem copies_of_mem {input : List UInt8} (zero : 0 ∈ input) (eof : EofPolicy) :
  Copies eof input none (input.takeWhile (· ≠ 0))
  := by
  obtain ⟨front, rest, rfl, nonzero⟩ := List.eq_append_cons_of_mem zero
  have copied : (front ++ 0 :: rest).takeWhile (· ≠ 0) = front := by
    rw [takeWhile_append_of_not_mem nonzero]
    simp
  obtain ⟨n, m, advanced, reading, left⟩ :=
    (reading_initial (front ++ 0 :: rest)).advance? rfl nonzero
  obtain ⟨m', ended, bytes⟩ := reading.ends (perform_read_of_cons left) (Tape.current_put _ _)
  use n + 3, m', (run_add advanced 3).trans ended
  rw [copied, bytes]
  simp

/-- If there is no zero then all bytes are copied before the end of the input is met. -/
theorem exists_reading_of_not_mem {input : List UInt8} (nonzero : 0 ∉ input) (eof : EofPolicy) :
  ∃ n m, advance? copy ⟨eof, 0⟩ n (.initial input) = some m ∧ Reading input.toArray m ∧
    m.store.input = ⟨[], false⟩
  := by
  have whole : (Machine.initial input).store.input = .ofList (input ++ []) := by
    rw [List.append_nil]
    rfl
  obtain ⟨n, m, advanced, reading, left⟩ := (reading_initial input).advance? whole nonzero
  rw [Array.empty_append] at reading
  use n, m, advanced, reading, left

/-- The program `,[.,]` copies the bytes of its input that stand before the first zero.  If there is
a zero then the run ends there, whatever the policy.  If there is none then all bytes are copied,
and the policy for the end of the input decides how the run ends.  A zero that is stored there ends
it.  If the read is a fault then it is the first read that fails if there was no byte, and else the
one in the loop.  If the cell stays as it is then it holds the zero it began with if there was no
byte, and this ends the run; otherwise it holds the last byte, and the run does not end. -/
theorem run_copy (input : List UInt8) :
  Copies .zero input none (input.takeWhile (· ≠ 0)) ∧
  (if 0 ∈ input then Copies .fail input none (input.takeWhile (· ≠ 0))
    else Copies .fail input (some ⟨.endOfInput, if input = [] then 0 else 3⟩) input) ∧
  if 0 ∈ input ∨ input = [] then Copies .keep input none (input.takeWhile (· ≠ 0))
    else ∀ fuel, run copy ⟨.keep, 0⟩ fuel (.initial input) = none
  := by
  by_cases zero : 0 ∈ input
  · simp only [zero, if_true, true_or]
    exact ⟨copies_of_mem zero .zero, copies_of_mem zero .fail, copies_of_mem zero .keep⟩
  · have all : input.takeWhile (· ≠ 0) = input := by
      simpa using takeWhile_append_of_not_mem zero []
    simp only [zero, if_false, false_or, all]
    and_intros
    · obtain ⟨n, m, advanced, reading, left⟩ := exists_reading_of_not_mem zero .zero
      obtain ⟨m', ended, bytes⟩ :=
        reading.ends (perform_read_of_nil left .zero) (Tape.current_put _ _)
      exact ⟨n + 3, m', (run_add advanced 3).trans ended, bytes⟩
    · obtain ⟨n, m, advanced, reading, left⟩ := exists_reading_of_not_mem zero .fail
      obtain ⟨m', ended, bytes⟩ := reading.fails (perform_read_of_nil left .fail)
      refine ⟨n + 1, m', (run_add advanced 1).trans ?_, bytes⟩
      rw [ended]
      simp
    · split
      · rename_i empty
        subst empty
        obtain ⟨m', ended, bytes⟩ :=
          (reading_initial []).ends (perform_read_of_nil rfl .keep) Tape.current_blank
        exact ⟨3, m', ended, bytes⟩
      · rename_i any
        intro fuel
        obtain ⟨n, m, advanced, reading, left⟩ := exists_reading_of_not_mem zero .keep
        obtain ⟨m', endless⟩ := reading.advance?_keep (by simpa using any) left fuel
        rw [← advance?_add advanced] at endless
        obtain ⟨m₁, advanced'⟩ := exists_advance?_of_le endless (Nat.le_add_left fuel n)
        apply run_eq_none_of_advance? advanced'

end Machine

end ByteTape
