import Mathlib

/-!
# `sdk.Int`: big integers of at most 255 bits

`types/int.go` wraps a `big.Int` and panics whenever a result needs more than `maxBitLen` bits, so
every `Int` it hands out has an absolute value below `2 ^ 255`: `SdkInt` carries that bound. An
operation that can panic returns an `Option`, `none` standing for the panic. `BitLen` is
`Nat.size` of the absolute value, so the check `BitLen() > maxBitLen` fails exactly below
`2 ^ 255` (`not_overflowsBits_iff`).
-/

namespace Barkis

/-- `maxBitLen`. -/
def maxBitLen : Nat := 255

/-- `big.Int.BitLen`: the bit length of the absolute value. -/
def bitLen (i : Int) : Nat := i.natAbs.size

/-- The check `BitLen() > bits` made after an arithmetic step. -/
def overflowsBits (bits : Nat) (i : Int) : Bool := decide (bits < bitLen i)

theorem overflowsBits_iff (bits : Nat) (i : Int) :
    overflowsBits bits i = true ↔ 2 ^ bits ≤ i.natAbs := by
  rw [overflowsBits, bitLen, decide_eq_true_iff, Nat.lt_size]

theorem not_overflowsBits_iff (bits : Nat) (i : Int) :
    overflowsBits bits i = false ↔ i.natAbs < 2 ^ bits := by
  rw [← Nat.size_le, overflowsBits, bitLen, decide_eq_false_iff_not, not_lt]

/-- `sdk.Int`: the wrapped `big.Int` `i`, within `maxBitLen` bits. -/
structure SdkInt where
  i : Int
  bound : i.natAbs < 2 ^ maxBitLen

namespace SdkInt

theorem ext_i {a b : SdkInt} (h : a.i = b.i) : a = b := by
  cases a; cases b; simp_all

instance : DecidableEq SdkInt := fun a b =>
  if h : a.i = b.i then isTrue (ext_i h) else isFalse (by rintro rfl; exact h rfl)

/-- The check after an arithmetic step: the result, or the panic `"Int overflow"`. -/
def checked (i : Int) : Option SdkInt :=
  if h : overflowsBits maxBitLen i then none
  else some ⟨i, (not_overflowsBits_iff _ _).1 (by simpa using h)⟩

/-- `ZeroInt`. -/
def zeroInt : SdkInt := ⟨0, by decide⟩

/-- `OneInt`. -/
def oneInt : SdkInt := ⟨1, by decide⟩

theorem natAbs_natCast_lt {n : Nat} (h : n < 2 ^ maxBitLen) :
    (n : Int).natAbs < 2 ^ maxBitLen := by
  simpa using h

/-- An amount written as a literal: `n` when it fits in `maxBitLen` bits, and zero otherwise. -/
def literal (n : Nat) : SdkInt :=
  if h : n < 2 ^ maxBitLen then ⟨n, natAbs_natCast_lt h⟩ else zeroInt

/-- `NewInt`, from an `int64`. -/
def newInt (n : Int64) : SdkInt :=
  ⟨n.toInt, by
    have h1 := Int64.le_toInt n
    have h2 := Int64.toInt_lt n
    have : n.toInt.natAbs ≤ 2 ^ 63 := by omega
    exact lt_of_le_of_lt this (Nat.pow_lt_pow_right (by decide) (by decide))⟩

/-- `NewIntFromBigInt`: panics on an out-of-range value. -/
def newIntFromBigInt (i : Int) : Option SdkInt := checked i

/-- `Int.Add`. -/
def add (a b : SdkInt) : Option SdkInt := checked (a.i + b.i)

/-- `Int.Sub`. -/
def sub (a b : SdkInt) : Option SdkInt := checked (a.i - b.i)

/-- `Int.Mul`: a bit-length pre-check in Go `int` arithmetic, then the check on the product. -/
def mul (a b : SdkInt) : Option SdkInt :=
  if (maxBitLen : Int) < (bitLen a.i : Int) + bitLen b.i - 1 then none else checked (a.i * b.i)

/-- `Int.Quo`: truncated division, panicking on a zero divisor. -/
def quo (a b : SdkInt) : Option SdkInt :=
  if b.i = 0 then none else newIntFromBigInt (a.i.tdiv b.i)

/-- `Int.Neg`. -/
def neg (a : SdkInt) : SdkInt := ⟨-a.i, by simpa using a.bound⟩

/-- `Int.IsZero`. -/
def isZero (a : SdkInt) : Bool := a.i == 0

/-- `Int.IsNegative`. -/
def isNegative (a : SdkInt) : Bool := decide (a.i < 0)

/-- `Int.IsPositive`. -/
def isPositive (a : SdkInt) : Bool := decide (0 < a.i)

/-- `MinInt`. -/
def minInt (a b : SdkInt) : SdkInt := if a.i > b.i then b else a

/-- `MaxInt`. -/
def maxInt (a b : SdkInt) : SdkInt := if a.i < b.i then b else a

theorem checked_eq_some {i : Int} {r : SdkInt} :
    checked i = some r ↔ r.i = i ∧ i.natAbs < 2 ^ maxBitLen := by
  unfold checked
  split
  · rename_i h
    have := (overflowsBits_iff _ _).1 h
    simp only [reduceCtorEq, false_iff, not_and, not_lt]
    exact fun _ => this
  · rename_i h
    have hb := (not_overflowsBits_iff _ _).1 (by simpa using h)
    constructor
    · rintro ⟨⟩; exact ⟨rfl, hb⟩
    · rintro ⟨hr, -⟩; exact congrArg some (ext_i hr.symm)

theorem checked_eq_none {i : Int} : checked i = none ↔ 2 ^ maxBitLen ≤ i.natAbs := by
  unfold checked
  split
  · rename_i h
    simpa using (overflowsBits_iff _ _).1 h
  · rename_i h
    have hb := (not_overflowsBits_iff _ _).1 (by simpa using h)
    simp only [reduceCtorEq, false_iff, not_le]
    exact hb

theorem add_eq_some {a b r : SdkInt} :
    add a b = some r ↔ r.i = a.i + b.i ∧ (a.i + b.i).natAbs < 2 ^ maxBitLen :=
  checked_eq_some

theorem add_eq_none {a b : SdkInt} : add a b = none ↔ 2 ^ maxBitLen ≤ (a.i + b.i).natAbs :=
  checked_eq_none

theorem sub_eq_some {a b r : SdkInt} :
    sub a b = some r ↔ r.i = a.i - b.i ∧ (a.i - b.i).natAbs < 2 ^ maxBitLen :=
  checked_eq_some

@[simp] theorem isZero_iff (a : SdkInt) : a.isZero = true ↔ a.i = 0 := by simp [isZero]

@[simp] theorem isNegative_iff (a : SdkInt) : a.isNegative = true ↔ a.i < 0 := by simp [isNegative]

@[simp] theorem isPositive_iff (a : SdkInt) : a.isPositive = true ↔ 0 < a.i := by simp [isPositive]

@[simp] theorem neg_i (a : SdkInt) : a.neg.i = -a.i := rfl

@[simp] theorem zeroInt_i : zeroInt.i = 0 := rfl

theorem exists_checked_of_natAbs_lt {i : Int} (h : i.natAbs < 2 ^ maxBitLen) :
    ∃ r, checked i = some r ∧ r.i = i :=
  ⟨⟨i, h⟩, checked_eq_some.2 ⟨rfl, h⟩, rfl⟩

/-- A value no larger in magnitude than an `sdk.Int` fits. -/
theorem exists_checked_of_natAbs_le {i : Int} (a : SdkInt) (h : i.natAbs ≤ a.i.natAbs) :
    ∃ r, checked i = some r ∧ r.i = i :=
  exists_checked_of_natAbs_lt (lt_of_le_of_lt h a.bound)

theorem minInt_i (a b : SdkInt) : (minInt a b).i = min a.i b.i := by
  unfold minInt; split <;> omega

theorem maxInt_i (a b : SdkInt) : (maxInt a b).i = max a.i b.i := by
  unfold maxInt; split <;> omega

end SdkInt

end Barkis
