import ByteTape.Options
import Mathlib.Data.List.Basic
import Mathlib.Data.List.Induction
import Mathlib.Data.List.TakeWhile
import Mathlib.Data.Nat.Digits.Defs
import Mathlib.Tactic.Use

/-!
# What decimal digits spell

`Decimal.value` is the number that digits spell, by what each of them counts in its place.
`Decimal.readBelow?` takes digits from left to right and gives up as soon as the number reaches the
bound; it reads exactly the non-empty strings of digits whose value is below the bound
(`readBelow?_eq_some_iff`).  This agrees with taking the longest run of digits in front, whatever
comes behind it, and asking afterwards that nothing does (`leading?_eq_some_nil_iff`).

A number has one written form without needless zeros, and digits spell the number exactly if they
are this form with zeros in front (`spells_iff_exists`).
-/

namespace ByteTape

namespace Decimal

variable {bound n m : Nat} {byte : UInt8} {bytes : List UInt8}

/-! ### Digits and their values -/

/-- A byte is one of the ten decimal digits. -/
def IsDigit (byte : UInt8) : Prop :=
  '0'.toUInt8 ≤ byte ∧ byte ≤ '9'.toUInt8

instance : DecidablePred IsDigit :=
  fun _ => inferInstanceAs (Decidable (_ ∧ _))

/-- How far a byte is behind the digit zero. -/
def digit (byte : UInt8) : Nat :=
  byte.toNat - '0'.toNat

/-- The number that digits spell: the last one counts ones, the one before it tens, and so on. -/
def value (bytes : List UInt8) : Nat :=
  Nat.ofDigits 10 (bytes.reverse.map digit)

theorem IsDigit.toNat_eq (h : IsDigit byte) :
  byte.toNat = 48 + digit byte ∧ digit byte < 10
  := by
  have least : 48 ≤ byte.toNat := UInt8.le_iff_toNat_le.mp h.1
  have most : byte.toNat ≤ 57 := UInt8.le_iff_toNat_le.mp h.2
  have zero : '0'.toNat = 48 := rfl
  rw [digit, zero]
  omega

@[simp]
theorem value_singleton (byte : UInt8) :
  value [byte] = digit byte
  := Nat.ofDigits_singleton

/-- Digits in front count as many times more as there are digits behind them. -/
theorem value_append (front back : List UInt8) :
  value (front ++ back) = 10 ^ back.length * value front + value back
  := by
  simp [value, Nat.ofDigits_append, Nat.add_comm]

theorem value_cons (byte : UInt8) (bytes : List UInt8) :
  value (byte :: bytes) = 10 ^ bytes.length * digit byte + value bytes
  := by
  rw [← value_singleton, ← value_append]
  rfl

/-! ### Taking digits from left to right -/

theorem extend?_eq_some_iff :
  extend? bound n byte = some m ↔ IsDigit byte ∧ 10 * n + digit byte = m ∧ m < bound
  := by
  have read : digit? byte = if IsDigit byte then some (digit byte) else none := rfl
  rw [extend?, read]
  by_cases h : IsDigit byte
  · simp only [h, if_true, Option.bind_eq_bind, Option.bind_some, true_and,
      Option.ite_none_right_eq_some, Option.some_inj]
    constructor
    · rintro ⟨below, rfl⟩
      exact ⟨rfl, below⟩
    · rintro ⟨rfl, below⟩
      exact ⟨below, rfl⟩
  · simp [h]

/-- From a number on, digits lead to the number that all digits together spell, if that is below
the bound.  All numbers on the way are then below the bound too. -/
theorem foldlM_extend?_eq_some_iff (below : n < bound) :
  bytes.foldlM (extend? bound) n = some m ↔
    (∀ byte ∈ bytes, IsDigit byte) ∧ 10 ^ bytes.length * n + value bytes = m ∧ m < bound
  := by
  induction bytes generalizing n with
  | nil =>
    have same : 10 ^ ([] : List UInt8).length * n + value [] = n := Nat.one_mul n
    rw [same, List.foldlM_nil]
    constructor
    · rintro ⟨⟩
      exact ⟨List.forall_mem_nil _, rfl, below⟩
    · rintro ⟨-, rfl, -⟩
      rfl
  | cons byte bytes ih =>
    have together : 10 ^ (byte :: bytes).length * n + value (byte :: bytes)
        = 10 ^ bytes.length * (10 * n + digit byte) + value bytes := by
      rw [value_cons, List.length_cons, pow_succ]
      ring
    rw [List.foldlM_cons, List.forall_mem_cons, together]
    constructor
    · intro read
      obtain ⟨next, first, others⟩ := Option.bind_eq_some_iff.mp read
      obtain ⟨isDigit, rfl, below⟩ := extend?_eq_some_iff.mp first
      obtain ⟨areDigits, total⟩ := (ih below).mp others
      exact ⟨⟨isDigit, areDigits⟩, total⟩
    · rintro ⟨⟨isDigit, areDigits⟩, total, below⟩
      -- The number after the first digit is at most what comes out in the end.
      have first : 10 * n + digit byte < bound := by
        have := Nat.le_mul_of_pos_left (10 * n + digit byte) (Nat.pow_pos (n := bytes.length)
          (by decide : 0 < 10))
        omega
      rw [extend?_eq_some_iff.mpr ⟨isDigit, rfl, first⟩]
      apply (ih first).mpr ⟨areDigits, total, below⟩

/-- Bytes spell a number if they are digits, at least one, and the number is their value. -/
structure Spells (bytes : List UInt8) (n : Nat) : Prop where
  ne_nil : bytes ≠ []
  isDigit : ∀ byte ∈ bytes, IsDigit byte
  value_eq : value bytes = n

/-- Exactly the numbers below the bound are read, each from the digits that spell it. -/
theorem readBelow?_eq_some_iff {text : Bytes} (positive : 0 < bound) :
  readBelow? bound text = some n ↔ Spells text.toList n ∧ n < bound
  := by
  rw [readBelow?]
  by_cases empty : text.toList = []
  · have nothing : text.isEmpty := by simpa using empty
    rw [if_pos nothing]
    constructor
    · rintro ⟨⟩
    · rintro ⟨spells, -⟩
      apply absurd empty spells.ne_nil
  · have something : ¬ text.isEmpty := by simpa using empty
    rw [if_neg something, foldlM_extend?_eq_some_iff positive, Nat.mul_zero, Nat.zero_add]
    constructor
    · rintro ⟨isDigit, value_eq, below⟩
      exact ⟨⟨empty, isDigit, value_eq⟩, below⟩
    · rintro ⟨spells, below⟩
      exact ⟨spells.isDigit, spells.value_eq, below⟩

/-! ### Taking the longest run of digits -/

/-- The number below a bound that the longest run of digits in front of some bytes spells, and the
bytes behind this run.  Nothing is given if there is no digit in front or the number is not below
the bound. -/
def leading? (bound : Nat) (bytes : List UInt8) : Option (Nat × List UInt8) :=
  let digits := bytes.takeWhile IsDigit
  if digits ≠ [] ∧ value digits < bound then some (value digits, bytes.dropWhile IsDigit)
  else none

/-- Nothing is behind the longest run of digits exactly if all bytes are digits. -/
theorem leading?_eq_some_nil_iff :
  leading? bound bytes = some (n, []) ↔ Spells bytes n ∧ n < bound
  := by
  have all : bytes.dropWhile IsDigit = [] ↔ ∀ byte ∈ bytes, IsDigit byte := by
    simp [List.dropWhile_eq_nil_iff]
  have whole (h : ∀ byte ∈ bytes, IsDigit byte) : bytes.takeWhile IsDigit = bytes := by
    simpa [List.takeWhile_eq_self_iff] using h
  rw [leading?, Option.ite_none_right_eq_some, Option.some_inj, Prod.mk.injEq, all]
  constructor
  · rintro ⟨⟨ne_nil, below⟩, value_eq, isDigit⟩
    rw [whole isDigit] at ne_nil below value_eq
    rw [value_eq] at below
    exact ⟨⟨ne_nil, isDigit, value_eq⟩, below⟩
  · rintro ⟨⟨ne_nil, isDigit, rfl⟩, below⟩
    rw [whole isDigit]
    exact ⟨⟨ne_nil, below⟩, rfl, isDigit⟩

/-! ### The written form of a number -/

/-- The bytes of a number in decimal digits. -/
def numeral (n : Nat) : List UInt8 :=
  (Nat.toDigits 10 n).map Char.toUInt8

/-- A digit takes one byte. -/
theorem utf8EncodeChar_of_isDigit {c : Char} (h : c.isDigit) :
  String.utf8EncodeChar c = [c.toUInt8]
  := by
  apply String.utf8EncodeChar_eq_singleton
  apply Char.utf8Size_eq_one_iff.mpr
  have most : c.toNat ≤ 57 := (Char.isDigit_iff_toNat.mp h).2
  apply UInt32.le_iff_toNat_le.mpr
  apply Nat.le_trans most (by decide)

theorem toList_ofString_ofNat (n : Nat) :
  (Bytes.ofString (ofNat n)).toList = numeral n
  := by
  have encoded : Bytes.ofString (ofNat n)
      = ((Nat.toDigits 10 n).flatMap String.utf8EncodeChar).toArray := List.data_toByteArray
  rw [encoded, numeral, List.map_eq_flatMap]
  apply List.flatMap_congr
  intro c among
  apply utf8EncodeChar_of_isDigit
  apply Nat.isDigit_of_mem_toDigits (by decide) (Nat.le_refl 10) among

/-- A number below ten is written with the one digit that counts it. -/
theorem numeral_digit (h : IsDigit byte) :
  numeral (digit byte) = [byte]
  := by
  obtain ⟨toNat_eq, below⟩ := h.toNat_eq
  rw [numeral, Nat.toDigits_of_lt_base below, List.map_singleton]
  congr 1
  apply UInt8.toNat_inj.mp
  have same : (digit byte).digitChar.toNat = byte.toNat := by
    rw [Nat.toNat_digitChar_of_lt_ten below, toNat_eq]
  calc (digit byte).digitChar.toUInt8.toNat
    _ = (digit byte).digitChar.toNat % 2 ^ 8 := UInt32.toNat_toUInt8 _
    _ = byte.toNat % 2 ^ 8 := by rw [same]
    _ = byte.toNat := Nat.mod_eq_of_lt byte.toNat_lt

theorem numeral_append (positive : 0 < n) (h : IsDigit byte) :
  numeral n ++ [byte] = numeral (10 * n + digit byte)
  := by
  rw [← numeral_digit h, numeral, numeral, ← List.map_append,
    Nat.toDigits_append_toDigits (by decide) positive h.toNat_eq.2]
  rfl

theorem numeral_zero :
  numeral 0 = ['0'.toUInt8]
  := rfl

theorem exists_digit (below : n < 10) :
  ∃ byte, IsDigit byte ∧ digit byte = n
  := by
  have each : ∀ n < 10, IsDigit (.ofNat (48 + n)) ∧ digit (.ofNat (48 + n)) = n := by decide
  use .ofNat (48 + n)
  apply each n below

theorem spells_singleton (h : IsDigit byte) :
  Spells [byte] (digit byte)
  where
  ne_nil := List.cons_ne_nil byte []
  isDigit := by simpa using h
  value_eq := value_singleton byte

/-- With one more digit behind them, digits spell ten times their number and what the new one
counts. -/
theorem Spells.append (spells : Spells bytes n) (h : IsDigit byte) :
  Spells (bytes ++ [byte]) (10 * n + digit byte)
  where
  ne_nil := by simp
  isDigit := by
    intro b among
    obtain among | last := List.mem_append.mp among
    · apply spells.isDigit b among
    · rw [List.mem_singleton.mp last]
      apply h
  value_eq := by
    rw [value_append, value_singleton, spells.value_eq]
    rfl

/-- Zeros in front make no difference. -/
theorem Spells.zeros (spells : Spells bytes n) (zeros : Nat) :
  Spells (List.replicate zeros '0'.toUInt8 ++ bytes) n
  where
  ne_nil := List.append_ne_nil_of_right_ne_nil _ spells.ne_nil
  isDigit := by
    intro b among
    obtain among | among := List.mem_append.mp among
    · rw [List.eq_of_mem_replicate among]
      decide
    · apply spells.isDigit b among
  value_eq := by
    have nothing : value (List.replicate zeros '0'.toUInt8) = 0 := by
      rw [value, List.reverse_replicate, List.map_replicate]
      apply Nat.ofDigits_replicate_zero
    rw [value_append, nothing, spells.value_eq, Nat.mul_zero, Nat.zero_add]

/-- The written form of a number spells that number. -/
theorem spells_numeral (n : Nat) :
  Spells (numeral n) n
  := by
  induction n using Nat.strongRecOn with
  | ind n ih =>
    obtain small | large := Nat.lt_or_ge n 10
    · obtain ⟨byte, h, rfl⟩ := exists_digit small
      rw [numeral_digit h]
      apply spells_singleton h
    · obtain ⟨byte, h, last⟩ := exists_digit (Nat.mod_lt n (by decide : 0 < 10))
      have front : 0 < n / 10 ∧ n / 10 < n := by omega
      have total : 10 * (n / 10) + digit byte = n := by
        rw [last, Nat.div_add_mod]
      have spells := (ih (n / 10) front.2).append h
      rw [numeral_append front.1 h, total] at spells
      apply spells

/-- Digits are the written form of what they spell, with zeros in front. -/
theorem Spells.exists_zeros (spells : Spells bytes n) :
  ∃ zeros, bytes = List.replicate zeros '0'.toUInt8 ++ numeral n
  := by
  obtain ⟨ne_nil, isDigit, rfl⟩ := spells
  -- The written form of a number grows at its end, so the last digit is taken away.
  induction bytes using List.reverseRecOn with
  | nil => contradiction
  | append_singleton front byte ih =>
    have last : IsDigit byte := isDigit byte (by simp)
    have total : value (front ++ [byte]) = 10 * value front + digit byte := by
      rw [value_append, value_singleton]
      rfl
    by_cases empty : front = []
    · subst empty
      use 0
      simp [numeral_digit last]
    · obtain ⟨zeros, e⟩ := ih empty fun b among => isDigit b (List.mem_append_left _ among)
      rw [total]
      obtain zero | positive := Nat.eq_zero_or_pos (value front)
      · -- Only zeros are in front; the last of them is the written form of what they spell.
        use zeros + 1
        rw [zero, Nat.mul_zero, Nat.zero_add, numeral_digit last]
        rw [zero, numeral_zero] at e
        rw [e, ← List.replicate_succ']
      · use zeros
        rw [← numeral_append positive last, ← List.append_assoc, ← e]

/-- Digits spell a number exactly if they are its written form, with any number of zeros in
front. -/
theorem spells_iff_exists :
  Spells bytes n ↔ ∃ zeros, bytes = List.replicate zeros '0'.toUInt8 ++ numeral n
  := by
  constructor
  · apply Spells.exists_zeros
  · rintro ⟨zeros, rfl⟩
    apply (spells_numeral n).zeros

/-- The written form of a number has no zero in front, unless the number is zero. -/
theorem head?_numeral_ne (positive : 0 < n) :
  (numeral n).head? ≠ some '0'.toUInt8
  := by
  intro zero
  obtain ⟨rest, written⟩ := List.head?_eq_some_iff.mp zero
  obtain ⟨-, isDigit, value_eq⟩ := spells_numeral n
  have same : value rest = n := by
    have nothing : digit '0'.toUInt8 = 0 := rfl
    rw [← value_eq, written, value_cons, nothing, Nat.mul_zero, Nat.zero_add]
  have some : rest ≠ [] := by
    rintro rfl
    rw [← same] at positive
    cases positive
  -- What is behind the zero spells the same number and is too short to do so.
  have spells : Spells rest n :=
    ⟨some, fun byte among => isDigit byte (written ▸ List.mem_cons_of_mem _ among), same⟩
  obtain ⟨zeros, longer⟩ := spells.exists_zeros
  have length := congrArg List.length longer
  rw [written] at length
  simp only [List.length_append, List.length_cons] at length
  omega

end Decimal

namespace Options

open Decimal

variable {text : Bytes} {limit : UInt64}

/-- A step limit is read from the digits that spell it. -/
theorem stepLimit?_eq_some_iff :
  stepLimit? text = some limit ↔ Spells text.toList limit.toNat
  := by
  rw [stepLimit?, Option.map_eq_some_iff]
  constructor
  · rintro ⟨n, read, rfl⟩
    obtain ⟨spells, below⟩ := (readBelow?_eq_some_iff (by decide)).mp read
    rw [UInt64.toNat_ofNat_of_lt' below]
    apply spells
  · intro spells
    use limit.toNat
    use (readBelow?_eq_some_iff (by decide)).mpr ⟨spells, limit.toNat_lt⟩
    apply UInt64.ofNat_toNat

/-- No step limit is read if there is nothing to read, if anything is not a digit, or if the number
is too large. -/
theorem stepLimit?_eq_none_iff :
  stepLimit? text = none ↔
    text = #[] ∨ (∃ byte ∈ text, ¬ IsDigit byte) ∨ 2 ^ 64 ≤ value text.toList
  := by
  simp only [Option.eq_none_iff_forall_ne_some, ne_eq, stepLimit?_eq_some_iff]
  constructor
  · intro unspelled
    by_contra other
    simp only [not_or, not_exists, not_and, not_not, Nat.not_le] at other
    obtain ⟨something, isDigit, below⟩ := other
    apply unspelled (.ofNat (value text.toList))
    rw [UInt64.toNat_ofNat_of_lt' below]
    exact ⟨by simpa using something, by simpa using isDigit, rfl⟩
  · rintro refused limit ⟨ne_nil, isDigit, value_eq⟩
    obtain rfl | ⟨byte, among, other⟩ | large := refused
    · contradiction
    · apply other (isDigit byte among.val)
    · rw [value_eq] at large
      apply absurd limit.toNat_lt (Nat.not_lt.mpr large)

/-- Step limits are exactly the numbers of 64 bits, in decimal digits.

* What is read is the value of the digits, if there are any and there is nothing else.
* Nothing is read from the empty text, if any byte is not a digit, or if the value is `2 ^ 64` or
  more.
* One may as well take the longest run of digits in front, and refuse what has anything behind it.
* A limit is read from its written form with any number of zeros in front, and from nothing else.
* So every number of 64 bits is read from its written form. -/
theorem stepLimit?_eq_iff (text : Bytes) :
  (∀ limit, stepLimit? text = some limit ↔
    text ≠ #[] ∧ (∀ byte ∈ text, IsDigit byte) ∧ value text.toList = limit.toNat) ∧
  (stepLimit? text = none ↔
    text = #[] ∨ (∃ byte ∈ text, ¬ IsDigit byte) ∨ 2 ^ 64 ≤ value text.toList) ∧
  (∀ limit, stepLimit? text = some limit ↔
    leading? (2 ^ 64) text.toList = some (limit.toNat, [])) ∧
  (∀ limit, stepLimit? text = some limit ↔
    ∃ zeros, text = Array.replicate zeros '0'.toUInt8 ++ Bytes.ofString (ofNat limit.toNat)) ∧
  ∀ limit, stepLimit? (Bytes.ofString (ofNat limit.toNat)) = some limit
  := by
  and_intros
  · intro limit
    rw [stepLimit?_eq_some_iff]
    constructor
    · rintro ⟨ne_nil, isDigit, value_eq⟩
      exact ⟨by simpa using ne_nil, by simpa using isDigit, value_eq⟩
    · rintro ⟨something, isDigit, value_eq⟩
      exact ⟨by simpa using something, by simpa using isDigit, value_eq⟩
  · apply stepLimit?_eq_none_iff
  · intro limit
    rw [stepLimit?_eq_some_iff, leading?_eq_some_nil_iff, and_iff_left limit.toNat_lt]
  · intro limit
    rw [stepLimit?_eq_some_iff, spells_iff_exists]
    apply exists_congr
    intro zeros
    rw [← Array.toList_inj, Array.toList_append, Array.toList_replicate, toList_ofString_ofNat]
  · intro limit
    rw [stepLimit?_eq_some_iff, toList_ofString_ofNat]
    apply spells_numeral

/-- Zeros in front do not matter, the largest limit is `2 ^ 64 - 1`, and a blank is not a digit. -/
theorem stepLimit?_eq_iff_largest :
  stepLimit? (Bytes.ofString "0018446744073709551615") = some 18446744073709551615 ∧
  stepLimit? (Bytes.ofString "18446744073709551616") = none ∧
  stepLimit? (Bytes.ofString "1 ") = none
  := by
  and_intros
  · apply ((stepLimit?_eq_iff _).1 _).mpr
    have digits : (Bytes.ofString "0018446744073709551615").toList.all (IsDigit ·) := by decide
    refine ⟨by decide, ?_, by decide⟩
    intro byte among
    apply of_decide_eq_true (List.all_eq_true.mp digits byte among.val)
  · apply (stepLimit?_eq_iff _).2.1.mpr
    have large : 2 ^ 64 ≤ value (Bytes.ofString "18446744073709551616").toList := by decide
    exact .inr (.inr large)
  · apply (stepLimit?_eq_iff _).2.1.mpr
    have blank : ' '.toUInt8 ∈ (Bytes.ofString "1 ").toList := by decide
    exact .inr (.inl ⟨_, Array.mem_toList_iff.mp blank, by decide⟩)

end Options

end ByteTape
