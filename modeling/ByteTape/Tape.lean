/-!
# The tape

The tape is a row of `Tape.size` cells, each of which holds a byte, with a head on one of
them.  The head never leaves the tape: `Tape.moveRight?` and `Tape.moveLeft?` give nothing
at the ends.  Cells wrap around when they are counted up or down.
-/

namespace ByteTape

/-- The number of cells. -/
def Tape.size : Nat := 30000

/-- A tape of bytes with a head on one of its cells. -/
structure Tape where
  cells : Vector UInt8 Tape.size
  head : Fin Tape.size
  deriving DecidableEq

namespace Tape

/-- The tape of zeros with the head on its first cell. -/
def blank : Tape :=
  ⟨Vector.replicate size 0, ⟨0, by decide⟩⟩

/-- The cell under the head. -/
def current (t : Tape) : UInt8 :=
  t.cells[t.head]

/-- The tape with another byte under the head. -/
def put (t : Tape) (byte : UInt8) : Tape :=
  match t with
  | ⟨cells, head⟩ => ⟨cells.set head byte, head⟩

/-- The tape with the cell under the head changed by a function. -/
def update (t : Tape) (f : UInt8 → UInt8) : Tape :=
  t.put (f t.current)

/-- The tape with the head on a given cell. -/
def seek (t : Tape) (head : Fin size) : Tape :=
  { t with head }

/-- The tape with the head one cell further right, unless it is on the last cell. -/
def moveRight? (t : Tape) : Option Tape :=
  if h : t.head.val + 1 < size then some (t.seek ⟨t.head.val + 1, h⟩) else none

/-- The tape with the head one cell further left, unless it is on the first cell. -/
def moveLeft? (t : Tape) : Option Tape :=
  if 0 < t.head.val then some (t.seek ⟨t.head.val - 1, by omega⟩) else none

/-! ### Laws of the head and the cells -/

@[simp]
theorem current_blank :
  blank.current = 0
  := by
  simp [current, blank]

@[simp]
theorem head_put (t : Tape) (byte : UInt8) :
  (t.put byte).head = t.head
  := rfl

@[simp]
theorem current_put (t : Tape) (byte : UInt8) :
  (t.put byte).current = byte
  := by
  simp [current, put]

/-- Writing leaves every cell but the one under the head. -/
theorem cells_put_of_ne (t : Tape) (byte : UInt8) {i : Fin size} (h : i ≠ t.head) :
  (t.put byte).cells[i] = t.cells[i]
  := by
  have : t.head.val ≠ i.val := fun e => h (Fin.ext e.symm)
  simp [put, Vector.getElem_set_ne _ _ this]

@[simp]
theorem cells_seek (t : Tape) (head : Fin size) :
  (t.seek head).cells = t.cells
  := rfl

@[simp]
theorem head_seek (t : Tape) (head : Fin size) :
  (t.seek head).head = head
  := rfl

/-- The head cannot move right exactly when it is on the last cell. -/
theorem moveRight?_eq_none_iff {t : Tape} :
  t.moveRight? = none ↔ t.head.val + 1 = size
  := by
  have := t.head.isLt
  simp only [moveRight?, dite_eq_right_iff, reduceCtorEq, imp_false]
  omega

/-- The head cannot move left exactly when it is on the first cell. -/
theorem moveLeft?_eq_none_iff {t : Tape} :
  t.moveLeft? = none ↔ t.head.val = 0
  := by
  simp only [moveLeft?, ite_eq_right_iff, reduceCtorEq, imp_false]
  omega

end Tape

end ByteTape
