import ByteTape.Nesting
import Mathlib.Tactic.Use

/-!
# Searching for the end of a loop agrees with the pairing of brackets

The open loops at a position contain, below each of them, the loops that were open where it
began (`openLoops_eq_append`), and a loop that is open somewhere has been open ever since it
began (`mem_openLoops_of_le`).  Hence no two loops share an end and no loop has two ends.

`Program.closing?` searches forward with nothing but a counter.  It finds the partner that the
pass with a stack gives to the beginning of a loop (`closing?_eq_some_iff`), and finds nothing
exactly when the beginning is stray (`closing?_eq_none_iff`).
-/

namespace ByteTape

namespace Program

variable {program : Program}

/-! ### Open loops, one position further -/

theorem openLoops_act {k : Nat} {action : Action} (here : program[k]? = some (.act action)) :
  program.openLoops (k + 1) = program.openLoops k
  := openLoops_succ here

theorem openLoops_loopStart {k : Nat} (here : program[k]? = some .loopStart) :
  program.openLoops (k + 1) = k :: program.openLoops k
  := openLoops_succ here

theorem openLoops_loopEnd {k : Nat} (here : program[k]? = some .loopEnd) :
  program.openLoops (k + 1) = (program.openLoops k).tail
  := openLoops_succ here

theorem openLoops_succ_of_size_le {k : Nat} (past : program.size ≤ k) :
  program.openLoops (k + 1) = program.openLoops k
  := by
  rw [openLoops, Array.getElem?_eq_none past]

/-- Behind the program the open loops are those at its end. -/
theorem openLoops_of_size_le {k : Nat} (past : program.size ≤ k) :
  program.openLoops k = program.openLoops program.size
  := by
  induction past with
  | refl => rfl
  | step past ih => rw [openLoops_succ_of_size_le past, ih]

/-- A loop that is open behind an instruction either was open before it or begins there. -/
theorem mem_openLoops_succ {k p : Nat} (h : p ∈ program.openLoops (k + 1)) :
  p = k ∨ p ∈ program.openLoops k
  := by
  rw [openLoops] at h
  split at h
  · rename_i instruction here
    cases instruction with
    | act action => exact .inr h
    | loopStart => apply List.mem_cons.mp h
    | loopEnd => exact .inr (List.mem_of_mem_tail h)
  · exact .inr h

theorem not_mem_openLoops_self (p : Nat) :
  p ∉ program.openLoops p
  := by
  intro h
  apply Nat.lt_irrefl p (of_mem_openLoops h).1

/-- A loop that is open somewhere has been open ever since it began. -/
theorem mem_openLoops_of_le {p k k' : Nat} (h : p ∈ program.openLoops k')
    (begun : p < k) (before : k ≤ k') :
  p ∈ program.openLoops k
  := by
  induction before with
  | refl => apply h
  | step before ih =>
    obtain rfl | h := mem_openLoops_succ h
    · apply absurd begun (Nat.not_lt.mpr before)
    · apply ih h

/-- Below an open loop lie the loops that were open where it began. -/
theorem openLoops_eq_append {p k : Nat} (h : p ∈ program.openLoops k) :
  ∃ inner, program.openLoops k = inner ++ p :: program.openLoops p
  := by
  induction k with
  | zero => cases h
  | succ k ih =>
    rw [openLoops] at h ⊢
    split at h
    · rename_i instruction here
      cases instruction with
      | act action => apply ih h
      | loopStart =>
        obtain rfl | h := List.mem_cons.mp h
        · use []
          rfl
        · obtain ⟨inner, e⟩ := ih h
          use k :: inner
          simp [openAfter, e]
      | loopEnd =>
        obtain ⟨inner, e⟩ := ih (List.mem_of_mem_tail h)
        simp only [openAfter, e] at h ⊢
        -- The loop itself is not the one that ends here, since it is still open.
        cases inner with
        | nil => apply absurd h (not_mem_openLoops_self p)
        | cons q inner =>
          use inner
          rfl
    · apply ih h

/-! ### Pairs -/

theorem Pairs.finish_lt {p q : Nat} (pair : program.Pairs p q) :
  q < program.size
  := (Array.getElem?_eq_some_iff.mp pair.1).1

theorem StrayEnd.lt {p : Nat} (stray : program.StrayEnd p) :
  p < program.size
  := (Array.getElem?_eq_some_iff.mp stray.1).1

theorem Pairs.mem_openLoops {p q : Nat} (pair : program.Pairs p q) :
  p ∈ program.openLoops q
  := List.mem_of_mem_head? pair.2

/-- At the end of a loop the loop itself is open, and around it what was open where it
began. -/
theorem Pairs.openLoops_finish {p q : Nat} (pair : program.Pairs p q) :
  program.openLoops q = p :: program.openLoops p
  := by
  obtain ⟨inner, e⟩ := openLoops_eq_append pair.mem_openLoops
  cases inner with
  | nil => apply e
  | cons r inner =>
    have same : r = p := by simpa [e] using pair.2
    have ordered := openLoops_decreasing program q
    rw [e, same] at ordered
    have := (List.pairwise_cons.mp ordered).1 p (by simp)
    omega

/-- Behind a loop the same loops are open as before it. -/
theorem Pairs.openLoops_succ_finish {p q : Nat} (pair : program.Pairs p q) :
  program.openLoops (q + 1) = program.openLoops p
  := by
  rw [openLoops_loopEnd pair.1, pair.openLoops_finish]
  rfl

/-- A loop is open everywhere behind its beginning and up to its end. -/
theorem Pairs.mem_openLoops_of_le {p q k : Nat} (pair : program.Pairs p q)
    (begun : p < k) (before : k ≤ q) :
  p ∈ program.openLoops k
  := Program.mem_openLoops_of_le pair.mem_openLoops begun before

/-- A loop is open nowhere behind its end. -/
theorem Pairs.not_mem_openLoops {p q k : Nat} (pair : program.Pairs p q) (ended : q < k) :
  p ∉ program.openLoops k
  := by
  intro h
  have := Program.mem_openLoops_of_le h (Nat.lt_succ_of_lt pair.lt.1) ended
  rw [pair.openLoops_succ_finish] at this
  apply not_mem_openLoops_self p this

/-- A loop beginning has at most one partner. -/
theorem Pairs.finish_unique {p q r : Nat} (hq : program.Pairs p q) (hr : program.Pairs p r) :
  q = r
  := by
  obtain before | same | before := Nat.lt_trichotomy q r
  · apply absurd hr.mem_openLoops (hq.not_mem_openLoops before)
  · apply same
  · apply absurd hq.mem_openLoops (hr.not_mem_openLoops before)

/-! ### The forward search -/

/-- The search, begun inside a loop and below as many further loops as its depth says, finds
the end of that loop; or it finds nothing, and then the loop is still open at the end of the
program. -/
theorem scan_of_openLoops {left position start : Nat} (inner : List Nat) {outer : List Nat}
    (within : position + left = program.size)
    (nested : program.openLoops position = inner ++ start :: outer) :
  (∀ finish, program.scan left inner.length position = some finish → program.Pairs start finish)
    ∧ (program.scan left inner.length position = none → start ∈ program.openLoops program.size)
  := by
  induction left generalizing position inner with
  | zero =>
    constructor
    · intro finish found
      cases found
    · intro _
      rw [← within, Nat.add_zero, nested]
      simp
  | succ left ih =>
    have inside : position < program.size := by omega
    obtain ⟨instruction, here⟩ : ∃ instruction, program[position]? = some instruction :=
      ⟨_, Array.getElem?_eq_getElem inside⟩
    have within : position + 1 + left = program.size := by omega
    rw [scan.eq_def]
    simp only [here]
    cases instruction with
    | act action =>
      apply ih inner within
      rw [openLoops_act here, nested]
    | loopStart =>
      apply ih (position :: inner) within
      rw [openLoops_loopStart here, nested]
      rfl
    | loopEnd =>
      cases inner with
      | nil =>
        constructor
        · rintro finish ⟨⟩
          use here
          simp [nested]
        · intro nothing
          cases nothing
      | cons p inner =>
        apply ih inner within
        rw [openLoops_loopEnd here, nested]
        rfl

/-- What the search for the end of a loop finds. -/
theorem closing?_of_loopStart {start : Nat} (here : program[start]? = some .loopStart) :
  (∀ finish, program.closing? (start + 1) = some finish → program.Pairs start finish)
    ∧ (program.closing? (start + 1) = none → start ∈ program.openLoops program.size)
  := by
  obtain ⟨inside, -⟩ := Array.getElem?_eq_some_iff.mp here
  apply scan_of_openLoops [] (by omega)
  apply openLoops_loopStart here

/-- A loop beginning is stray exactly when its loop is open at the end of the program. -/
theorem mem_openLoops_size_iff {p : Nat} :
  p ∈ program.openLoops program.size ↔ program.StrayStart p
  := by
  constructor
  · intro unclosed
    use (of_mem_openLoops unclosed).2
    intro q pair
    apply pair.not_mem_openLoops pair.finish_lt unclosed
  · rintro ⟨here, unpaired⟩
    obtain ⟨paired, unclosed⟩ := closing?_of_loopStart here
    cases found : program.closing? (p + 1) with
    | none => apply unclosed found
    | some q => apply absurd (paired q found) (unpaired q)

/-- The search finds the partner of a loop beginning. -/
theorem closing?_eq_some_iff {start finish : Nat} (here : program[start]? = some .loopStart) :
  program.closing? (start + 1) = some finish ↔ program.Pairs start finish
  := by
  obtain ⟨paired, unclosed⟩ := closing?_of_loopStart here
  constructor
  · apply paired finish
  · intro pair
    cases found : program.closing? (start + 1) with
    | none => apply absurd pair ((mem_openLoops_size_iff.mp (unclosed found)).2 finish)
    | some q => rw [(paired q found).finish_unique pair]

/-- The search finds nothing exactly when the loop beginning is stray. -/
theorem closing?_eq_none_iff {start : Nat} (here : program[start]? = some .loopStart) :
  program.closing? (start + 1) = none ↔ program.StrayStart start
  := by
  constructor
  · intro nothing
    apply mem_openLoops_size_iff.mp ((closing?_of_loopStart here).2 nothing)
  · intro stray
    cases found : program.closing? (start + 1) with
    | none => rfl
    | some q => apply absurd ((closing?_eq_some_iff here).mp found) (stray.2 q)

/-! ### Stray brackets -/

theorem Pairs.not_strayStart {p q : Nat} (pair : program.Pairs p q) :
  ¬ program.StrayStart p
  := fun stray => stray.2 q pair

/-- Inside a loop no loop end is stray. -/
theorem Pairs.not_strayEnd {p q k : Nat} (pair : program.Pairs p q) (begun : p < k)
    (before : k ≤ q) :
  ¬ program.StrayEnd k
  := by
  rintro ⟨-, none⟩
  have := pair.mem_openLoops_of_le begun before
  rw [none] at this
  cases this

/-- Behind a stray loop beginning no loop end is stray. -/
theorem StrayStart.not_strayEnd {p k : Nat} (stray : program.StrayStart p) (begun : p < k) :
  ¬ program.StrayEnd k
  := by
  intro closing
  have unclosed := mem_openLoops_size_iff.mpr stray
  have := Program.mem_openLoops_of_le unclosed begun (Nat.le_of_lt closing.lt)
  rw [closing.2] at this
  cases this

/-- If every bracket has a partner then no loop beginning is stray. -/
theorem Balanced.not_strayStart {p : Nat} (balanced : program.Balanced) :
  ¬ program.StrayStart p
  := by
  rw [← mem_openLoops_size_iff, balanced.2]
  apply List.not_mem_nil

end Program

end ByteTape
