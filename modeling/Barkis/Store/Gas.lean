import Mathlib.Data.Nat.Basic
import Mathlib.Algebra.Group.Nat.Defs

/-!
# Gas meters

`store/types/gas.go`. `Gas` is `uint64`. `ConsumeGas` adds with an overflow check and panics
with `ErrorGasOverflow` on overflow and, on a basic meter, with `ErrorOutOfGas` past the limit;
the meter keeps what it was set to before the panic (`0` on overflow).

* `consumeGas_basic_of_le`, `consumeGas_basic_isSome_of_lt`: a basic meter takes `amount`
  without a panic when `consumed + amount ≤ limit`, and panics otherwise.
-/

namespace Barkis

/-- `Gas`. -/
abbrev Gas := UInt64

/-- `math.MaxUint64`. -/
def maxUint64 : Gas := 18446744073709551615

/-- The panics of a gas meter: `ErrorOutOfGas` and `ErrorGasOverflow`, with their descriptor. -/
inductive GasError
  | outOfGas (descriptor : String)
  | gasOverflow (descriptor : String)
deriving DecidableEq, Repr

/-- `basicGasMeter` and `infiniteGasMeter`. -/
inductive GasMeter
  | basic (limit consumed : Gas)
  | infinite (consumed : Gas)
deriving DecidableEq, Repr

/-- `addUint64Overflow`: the sum, and whether it overflows (the sum is then `0`). -/
def addUint64Overflow (a b : Gas) : Gas × Bool :=
  if maxUint64 - a < b then (0, true) else (a + b, false)

namespace GasMeter

/-- `GasConsumed`. -/
def gasConsumed : GasMeter → Gas
  | basic _ consumed => consumed
  | infinite consumed => consumed

/-- `IsPastLimit`. -/
def isPastLimit : GasMeter → Bool
  | basic limit consumed => limit < consumed
  | infinite _ => false

/-- `IsOutOfGas`. -/
def isOutOfGas : GasMeter → Bool
  | basic limit consumed => limit ≤ consumed
  | infinite _ => false

/-- `GasConsumedToLimit`. -/
def gasConsumedToLimit (g : GasMeter) : Gas :=
  match g with
  | basic limit consumed => if g.isPastLimit then limit else consumed
  | infinite consumed => consumed

/-- `ConsumeGas`: the meter after, and the panic raised. -/
def consumeGas (g : GasMeter) (amount : Gas) (descriptor : String) : GasMeter × Option GasError :=
  match g with
  | basic limit consumed =>
    let r := addUint64Overflow consumed amount
    if r.2 then (basic limit r.1, some (.gasOverflow descriptor))
    else if limit < r.1 then (basic limit r.1, some (.outOfGas descriptor))
    else (basic limit r.1, none)
  | infinite consumed =>
    let r := addUint64Overflow consumed amount
    (infinite r.1, if r.2 then some (.gasOverflow descriptor) else none)

end GasMeter

/-- Without overflow, `addUint64Overflow` adds. -/
theorem addUint64Overflow_eq (a b : Gas) :
    addUint64Overflow a b =
      if 2 ^ 64 ≤ a.toNat + b.toNat then (0, true) else (a + b, false) := by
  have ha := a.toNat_lt
  have hb := b.toNat_lt
  have hmax : maxUint64.toNat = 2 ^ 64 - 1 := rfl
  have hsub : (maxUint64 - a).toNat = 2 ^ 64 - 1 - a.toNat := by
    rw [UInt64.toNat_sub_of_le _ _ (UInt64.le_iff_toNat_le.2 (by omega)), hmax]
  unfold addUint64Overflow
  by_cases h : 2 ^ 64 ≤ a.toNat + b.toNat
  · rw [if_pos (UInt64.lt_iff_toNat_lt.2 (by omega)), if_pos h]
  · rw [if_neg (fun h' => by have := UInt64.lt_iff_toNat_lt.1 h'; omega), if_neg h]

namespace GasMeter

/-- Within its limit a basic meter adds `amount`. -/
theorem consumeGas_basic_of_le {limit consumed amount : Gas}
    (h : consumed.toNat + amount.toNat ≤ limit.toNat) (descriptor : String) :
    consumeGas (basic limit consumed) amount descriptor = (basic limit (consumed + amount), none) := by
  have hl := limit.toNat_lt
  have hsum : (consumed + amount).toNat = consumed.toNat + amount.toNat := by
    rw [UInt64.toNat_add]
    omega
  have hlt : ¬limit < consumed + amount := fun h' => by
    have := UInt64.lt_iff_toNat_lt.1 h'
    omega
  have ho : ¬2 ^ 64 ≤ consumed.toNat + amount.toNat := by omega
  simp only [consumeGas, addUint64Overflow_eq, if_neg ho, Bool.false_eq_true, if_false, if_neg hlt]

/-- Past its limit a basic meter panics, with an overflow or out of gas. -/
theorem consumeGas_basic_isSome_of_lt {limit consumed amount : Gas}
    (h : limit.toNat < consumed.toNat + amount.toNat) (descriptor : String) :
    (consumeGas (basic limit consumed) amount descriptor).2.isSome = true := by
  unfold consumeGas
  simp only [addUint64Overflow_eq]
  by_cases ho : 2 ^ 64 ≤ consumed.toNat + amount.toNat
  · simp only [if_pos ho, if_true, Option.isSome_some]
  · have hsum : (consumed + amount).toNat = consumed.toNat + amount.toNat := by
      rw [UInt64.toNat_add]
      omega
    have hlt : limit < consumed + amount := UInt64.lt_iff_toNat_lt.2 (by omega)
    simp only [if_neg ho, Bool.false_eq_true, if_false, if_pos hlt, Option.isSome_some]

end GasMeter

end Barkis
