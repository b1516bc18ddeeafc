import ByteTape.Decimal

/-!
# Faults

Five things can stop a program before its end.  A `Fault` says which of them it was and at
which instruction it happened, counted from zero; `Fault.message` words it.
-/

namespace ByteTape

/-- What can stop a program. -/
inductive FaultKind where
  /-- A loop has a beginning without an end. -/
  | unclosedLoop
  /-- A loop has an end without a beginning. -/
  | unopenedLoop
  /-- A read found no byte. -/
  | endOfInput
  /-- The head was about to leave the tape. -/
  | offTape
  /-- As many steps were made as the options allow. -/
  | stepLimit
  deriving DecidableEq, Repr

namespace FaultKind

/-- What went wrong, in words. -/
def text : FaultKind → String
  | unclosedLoop =>
    "loop beginning operator (\"[\") has no corresponding loop ending operator (\"]\")"
  | unopenedLoop =>
    "loop ending operator (\"]\") has no corresponding loop beginning operator (\"[\")"
  | endOfInput => "input operator (\",\") reached the end of input"
  | offTape => "trying to move the data pointer outside of the tape"
  | stepLimit => "step limit exceeded"

/-- The kinds of faults are numbered from zero, by 32-bit numbers. -/
def ofCode? (code : Int32) : Option FaultKind :=
  match code.toInt with
  | 0 => some unclosedLoop
  | 1 => some unopenedLoop
  | 2 => some endOfInput
  | 3 => some offTape
  | 4 => some stepLimit
  | _ => none

/-- What the kind with a given number stands for, in words. -/
def textOfCode (code : Int32) : String :=
  match ofCode? code with
  | some kind => kind.text
  | none => "unknown error"

end FaultKind

/-- The place of a fault, in words, after the words for its kind. -/
def Fault.located (text : String) (position : Nat) : String :=
  text ++ " (at instruction " ++ Decimal.ofNat position ++ ")"

/-- What stopped a program, and at which instruction. -/
structure Fault where
  kind : FaultKind
  position : Nat
  deriving DecidableEq, Repr

namespace Fault

/-- A fault in words. -/
def message (fault : Fault) : String :=
  located fault.kind.text fault.position

end Fault

end ByteTape
