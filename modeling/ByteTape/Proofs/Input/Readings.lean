import ByteTape.Proofs.Input.Reads
import Mathlib.Data.List.ReduceOption

/-!
# What reads find

`Input.Readings` tells what one read after the other finds in an input to which nothing is added in
between.  The bytes that are found, followed by those that are left, are the bytes that were there
(`Readings.lossless`), and a read that finds nothing is followed only by such reads
(`Readings.pairwise`).

`Machine.readings` tells of a step what it reads: a byte, which is then in the current cell, or
nothing because it met the end of the input.  `Machine.readingsOfRun` collects that from all steps
of a run.  What steps and runs read is what one read after the other finds in the input
(`readings_step`, `readings_run`).
-/

namespace ByteTape

namespace Input

/-- Reads of an input, one after the other, with what each of them finds and what is left. -/
inductive Readings : Input → List (Option UInt8) → Input → Prop where
  /-- Nothing is read. -/
  | done (input : Input) :
    Readings input [] input
  /-- One read and then others. -/
  | next {input after : Input} {found : List (Option UInt8)}
      (others : Readings input.read.2 found after) :
    Readings input (input.read.1 :: found) after

variable {input before between after : Input} {found found' : List (Option UInt8)}

/-- Once the end of the input has been met a read finds nothing. -/
theorem read_of_ended (ended : input.ended = true) :
  input.read = (none, input)
  := by
  obtain ⟨unread, _⟩ := input
  cases ended
  apply read_ended

theorem Readings.append (first : Readings before found between)
    (others : Readings between found' after) :
  Readings before (found ++ found') after
  := by
  induction first with
  | done => apply others
  | next _ ih => exact .next (ih others)

/-- No byte is lost, found twice or found out of order. -/
theorem Readings.lossless (readings : Readings before found after) :
  found.reduceOption ++ after.unread = before.unread
  := by
  induction readings with
  | done => rfl
  | @next input after found others ih =>
    rw [← read_lossless input, ← ih]
    cases input.read.1 with
    | none => rw [List.reduceOption_cons_of_none]; rfl
    | some byte => rw [List.reduceOption_cons_of_some]; rfl

/-- Once the end has been met no read changes anything, and all of them find nothing. -/
theorem Readings.of_ended (readings : Readings before found after)
    (ended : before.ended = true) :
  after = before ∧ ∀ result ∈ found, result = none
  := by
  induction readings with
  | done => simp
  | next others ih =>
    rw [read_of_ended ended] at ih
    obtain ⟨same, nothing⟩ := ih ended
    use same
    intro result among
    obtain rfl | later := List.mem_cons.mp among
    · rw [read_of_ended ended]
    · apply nothing result later

/-- A read that finds nothing has met the end, and so have all reads after it. -/
theorem Readings.ended_of_mem (readings : Readings before found after) (missed : none ∈ found) :
  after.ended = true
  := by
  induction readings with
  | done => cases missed
  | @next input after found others ih =>
    obtain now | later := List.mem_cons.mp missed
    · have ended := (read_eq_none_iff input).mp now.symm
      rw [(others.of_ended ended).1]
      apply ended
    · apply ih later

/-- A read that finds nothing is followed only by reads that find nothing. -/
theorem Readings.pairwise (readings : Readings before found after) :
  found.Pairwise fun earlier later => earlier = none → later = none
  := by
  induction readings with
  | done => apply List.Pairwise.nil
  | @next input after found others ih =>
    apply List.Pairwise.cons _ ih
    intro result later missed
    apply (others.of_ended ((read_eq_none_iff input).mp missed)).2 result later

end Input

namespace Machine

variable {program : Program} {options : Options} {m : Machine}

/-- What the next step reads, if it does: the byte that it leaves in the current cell, or nothing
if it meets the end of the input. -/
def readings (program : Program) (options : Options) (m : Machine) : List (Option UInt8) :=
  if m.MeetsEnd program options then [none]
  else if m.Reads program options then [some (m.step program options).1.store.tape.current]
  else []

/-- What a run reads within `fuel` steps. -/
def readingsOfRun (program : Program) (options : Options) :
    (fuel : Nat) → Machine → List (Option UInt8)
  | 0, _ => []
  | fuel + 1, m =>
    m.readings program options ++
      match m.step program options with
      | (m', .running) => readingsOfRun program options fuel m'
      | _ => []

theorem readings_of_not_reads (idle : ¬ m.Reads program options) :
  m.readings program options = []
  := by
  rw [readings, if_neg fun missed => idle missed.1, if_neg idle]

/-- A step that meets the end of the input takes nothing. -/
theorem readings_of_meetsEnd (missed : m.MeetsEnd program options) :
  m.readings program options = [none] ∧
    (m.step program options).1.store.input.unread = m.store.input.unread
  := by
  constructor
  · rw [readings, if_pos missed]
  · rw [step_of_reads missed.1, Store.read_of_eq_none missed.2]

/-- The byte that a step stores is the one that it takes from the input. -/
theorem readings_of_reads (reads : m.Reads program options) :
  m.readings program options = [m.store.input.read.1]
  := by
  cases read : m.store.input.read with
  | mk result rest =>
    cases result with
    | none =>
      rw [readings, if_pos ⟨reads, by rw [read]⟩]
    | some byte =>
      have found : ¬ m.MeetsEnd program options := by
        rintro ⟨-, missing⟩
        rw [read] at missing
        cases missing
      rw [readings, if_neg found, if_pos reads, step_of_reads reads,
        Store.read_of_eq_some read, Tape.current_put]

/-- What a step reads is what it finds in the input. -/
theorem readings_step (program : Program) (options : Options) (m : Machine) :
  Input.Readings m.store.input (m.readings program options)
    (m.step program options).1.store.input
  := by
  by_cases reads : m.Reads program options
  · rw [readings_of_reads reads, step_of_reads reads, Store.input_read]
    exact .next (.done _)
  · rw [readings_of_not_reads reads, input_step_of_not_reads reads]
    exact .done _

/-- What a run reads is what it finds in the input, whether it ends or not. -/
theorem readings_run (program : Program) (options : Options) (fuel : Nat) (m : Machine) :
  ∃ after, Input.Readings m.store.input (readingsOfRun program options fuel m) after ∧
    ∀ m' fault, run program options fuel m = some (m', fault) → m'.store.input = after
  := by
  induction fuel generalizing m with
  | zero =>
    use m.store.input, .done _
    intro m' fault ended
    cases ended
  | succ fuel ih =>
    have first := readings_step program options m
    rw [readingsOfRun, run]
    cases stepped : m.step program options with
    | mk next outcome =>
      rw [stepped] at first
      cases outcome with
      | running =>
        obtain ⟨after, others, ends⟩ := ih next
        use after, first.append others, ends
      | halted =>
        use next.store.input
        rw [List.append_nil]
        use first
        rintro m' fault ⟨⟩
        rfl
      | failed fault =>
        use next.store.input
        rw [List.append_nil]
        use first
        rintro m' fault ⟨⟩
        rfl

end Machine

end ByteTape
