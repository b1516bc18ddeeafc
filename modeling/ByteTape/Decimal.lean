import ByteTape.Bytes

/-!
# Decimal numbers

`Decimal.ofNat` writes a number in decimal digits.  `Decimal.readBelow?` reads digits, and
nothing but digits, as a number below a bound; it gives up at the first digit that takes the
number to the bound, so that the numbers on the way stay small however long the text is.
-/

namespace ByteTape

namespace Decimal

/-- A number in decimal digits without leading zeros. -/
def ofNat (n : Nat) : String :=
  String.ofList (Nat.toDigits 10 n)

/-- The value of a decimal digit. -/
def digit? (byte : UInt8) : Option Nat :=
  if 48 ≤ byte ∧ byte ≤ 57 then some (byte.toNat - 48) else none

/-- The number with one more digit, if that is a digit and the number stays below the bound. -/
def extend? (bound n : Nat) (byte : UInt8) : Option Nat := do
  let digit ← digit? byte
  if 10 * n + digit < bound then some (10 * n + digit) else none

/-- The number below a bound that a non-empty string of digits spells. -/
def readBelow? (bound : Nat) (text : Bytes) : Option Nat :=
  if text.isEmpty then none else text.toList.foldlM (extend? bound) 0

end Decimal

end ByteTape
