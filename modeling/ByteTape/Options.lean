import ByteTape.Decimal

/-!
# Options of a run

The user of a program chooses what a read does at the end of the input, and may limit the
number of steps.  `EofPolicy.ofBytes?` and `Options.stepLimit?` read these choices from
program arguments.
-/

namespace ByteTape

/-- What a read does at the end of the input. -/
inductive EofPolicy where
  /-- The read is a fault. -/
  | fail
  /-- The read sets the current cell to zero. -/
  | zero
  /-- The read leaves the current cell as it is. -/
  | keep
  deriving DecidableEq, Repr

/-- The policy with a given name. -/
def EofPolicy.ofBytes? (name : Bytes) : Option EofPolicy :=
  if name = Bytes.ofString "fail" then some .fail
  else if name = Bytes.ofString "zero" then some .zero
  else if name = Bytes.ofString "keep" then some .keep
  else none

/-- The choices that a run depends on besides its program and its input. -/
structure Options where
  /-- What a read does at the end of the input. -/
  eof : EofPolicy := .fail
  /-- How many steps may be made, where zero stands for any number. -/
  maxSteps : UInt64 := 0
  deriving DecidableEq, Repr

namespace Options

/-- Whether no further step may be made after a number of steps. -/
def exhausted (options : Options) (steps : UInt64) : Bool :=
  options.maxSteps != 0 && options.maxSteps ≤ steps

/-- The step limit that a string of decimal digits spells, if it is a 64-bit number. -/
def stepLimit? (text : Bytes) : Option UInt64 :=
  (Decimal.readBelow? UInt64.size text).map UInt64.ofNat

/-- Without a limit any number of steps may be made. -/
@[simp]
theorem exhausted_unlimited (eof : EofPolicy) (steps : UInt64) :
  exhausted ⟨eof, 0⟩ steps = false
  := by
  simp [exhausted]

end Options

end ByteTape
