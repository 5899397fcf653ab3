import Barkis.Types.Decimal
import Barkis.Types.Coin

/-!
# `DecCoin` and `DecCoins`

`types/dec_coin.go`: the same coin sets as `Coins`, over `sdk.Dec` amounts. The operations are
those of `CoinSet` at `Dec.amountOps`, whose amounts are integers below `2 ^ (255 + 60)`.

* `coins_finiteMapLaws`: both coin sets are finite maps from denoms to non-negative amounts.
-/

namespace Barkis

namespace Dec

instance : Zero Dec := ⟨zeroDec⟩

@[simp] theorem zero_int : (0 : Dec).int = 0 := rfl

/-- The `sdk.Dec` operations a coin set calls. -/
def amountOps : AmountOps Dec where
  isZero := isZero
  isPositive := isPositive
  isNegative := isNegative
  add := add
  sub := sub
  neg := neg

theorem amountOps_lawful : amountOps.Lawful Dec.int (maxBitLen + decimalPrecisionBits) where
  toInt_inj _ _ h := ext_int h
  bound x := x.bound
  toInt_zero := rfl
  isZero_iff := isZero_iff
  isPositive_iff := isPositive_iff
  isNegative_iff := isNegative_iff
  add_eq_some _ _ _ := add_eq_some
  add_eq_none _ _ := add_eq_none
  sub_eq_some _ _ _ := sub_eq_some
  toInt_neg _ := rfl

end Dec

/-- `DecCoin`. -/
abbrev DecCoin := CoinOf Dec

/-- `DecCoins`. -/
abbrev DecCoins := List DecCoin

namespace DecCoin

/-- `DecCoin.IsZero`. -/
def isZero (c : DecCoin) : Bool := CoinOf.isZero Dec.amountOps c

/-- `DecCoin.IsPositive`. -/
def isPositive (c : DecCoin) : Bool := CoinOf.isPositive Dec.amountOps c

/-- `DecCoin.IsNegative`. -/
def isNegative (c : DecCoin) : Bool := CoinOf.isNegative Dec.amountOps c

/-- `DecCoin.Add`. -/
def add (c d : DecCoin) : Option DecCoin := CoinOf.add Dec.amountOps c d

end DecCoin

namespace DecCoins

variable (toLower : String → String)

/-- `DecCoins.IsValid`. -/
def isValid (coins : DecCoins) : Bool := CoinSet.isValid toLower Dec.amountOps coins

/-- `DecCoins.safeAdd`. -/
def safeAdd (coins coinsB : DecCoins) : Option DecCoins :=
  CoinSet.safeAdd Dec.amountOps coins coinsB

/-- `DecCoins.Add`. -/
def add (coins coinsB : DecCoins) : Option DecCoins := CoinSet.add Dec.amountOps coins coinsB

/-- `DecCoins.negative`. -/
def negative (coins : DecCoins) : DecCoins := CoinSet.negative Dec.amountOps coins

/-- `DecCoins.IsAnyNegative`. -/
def isAnyNegative (coins : DecCoins) : Bool := CoinSet.isAnyNegative Dec.amountOps coins

/-- `DecCoins.SafeSub`. -/
def safeSub (coins coinsB : DecCoins) : Option (DecCoins × Bool) :=
  CoinSet.safeSub Dec.amountOps coins coinsB

/-- `DecCoins.Sub`. -/
def sub (coins coinsB : DecCoins) : Option DecCoins := CoinSet.sub Dec.amountOps coins coinsB

/-- `DecCoins.AmountOf`. -/
def amountOf (coins : DecCoins) (denom : String) : Option Dec := CoinSet.amountOf coins denom

/-- One coin of the loop of `MulDec` and `MulDecTruncate`: its amount times `d`, added to the
result unless it is zero. -/
def mulAdd (mul : Dec → Dec → Option Dec) (d : Dec) (res : DecCoins) (coin : DecCoin) :
    Option DecCoins := do
  let product : DecCoin := ⟨coin.denom, ← mul coin.amount d⟩
  if !DecCoin.isZero product then add res [product] else pure res

/-- The loop `MulDec` and `MulDecTruncate` share. -/
def mulEach (mul : Dec → Dec → Option Dec) (coins : DecCoins) (d : Dec) : Option DecCoins :=
  coins.foldlM (mulAdd mul d) []

/-- `DecCoins.MulDec`. -/
def mulDec (coins : DecCoins) (d : Dec) : Option DecCoins := mulEach Dec.mul coins d

/-- `DecCoins.MulDecTruncate`. -/
def mulDecTruncate (coins : DecCoins) (d : Dec) : Option DecCoins :=
  mulEach Dec.mulTruncate coins d

end DecCoins

/-- `NewDecCoinFromCoin`: a negative amount or a denom with upper case panics. -/
def newDecCoinFromCoin (toLower : String → String) (coin : Coin) : Option DecCoin :=
  if coin.amount.i < 0 then none
  else if toLower coin.denom ≠ coin.denom then none
  else some ⟨coin.denom, Dec.newDecFromInt coin.amount⟩

/-- `NewDecCoins`. -/
def newDecCoins (toLower : String → String) (coins : Coins) : Option DecCoins :=
  coins.mapM (newDecCoinFromCoin toLower)

/-- `removeZeroDecCoins`. -/
def removeZeroDecCoins (coins : DecCoins) : DecCoins :=
  CoinSet.removeZeroCoins Dec.amountOps coins

/-! ## Truncation, quotients and intersections

What the rewards of `x/distribution` compute with: `NewCoin` and the sums panic as elsewhere. -/

/-- `DecCoin.TruncateDecimal`: the integral part as a coin, and the change. -/
def DecCoin.truncateDecimal (coin : DecCoin) : Option (Coin × DecCoin) := do
  let truncated ← coin.amount.truncateInt
  let change ← coin.amount.sub (Dec.newDecFromInt truncated)
  let truncatedCoin ← newCoin coin.denom truncated
  pure (truncatedCoin, ⟨coin.denom, change⟩)

namespace DecCoins

/-- `DecCoins.IsZero`. -/
def isZero (coins : DecCoins) : Bool := coins.all fun coin => coin.amount.isZero

/-- `DecCoins.QuoDecTruncate`: panics on a zero divisor; zero quotients are dropped. -/
def quoDecTruncate (coins : DecCoins) (d : Dec) : Option DecCoins :=
  if d.isZero then none
  else
    coins.foldlM (fun res coin => do
      let quotient : DecCoin := ⟨coin.denom, ← coin.amount.quoTruncate d⟩
      if quotient.isZero then pure res else DecCoins.add res [quotient]) []

/-- `DecCoins.Intersect`: each coin at the least of its amount and that of `coinsB`. -/
def intersect (coins coinsB : DecCoins) : Option DecCoins := do
  let res ← coins.mapM fun coin => do
    let amountB ← DecCoins.amountOf coinsB coin.denom
    pure (⟨coin.denom, Dec.minDec coin.amount amountB⟩ : DecCoin)
  pure (removeZeroDecCoins res)

/-- `DecCoins.TruncateDecimal`: the integral parts as coins, and the change. -/
def truncateDecimal (coins : DecCoins) : Option (Coins × DecCoins) :=
  coins.foldlM (fun acc coin => do
    let (truncated, change) ← coin.truncateDecimal
    let truncatedCoins ← if truncated.isZero then pure acc.1 else Coins.add acc.1 [truncated]
    let changeCoins ← if change.isZero then pure acc.2 else DecCoins.add acc.2 [change]
    pure (truncatedCoins, changeCoins)) ([], [])

end DecCoins

/-! ## The balances of products and conversions -/

section Products

open CoinSet SortedMerge

end Products

/-- `Coins` and `DecCoins` are finite maps from denoms to non-negative amounts: on sets that pass
`IsValid`, `Add` fails exactly on an overflowing denom and otherwise returns a valid set whose
`AmountOf` is the sum; `SafeSub` returns the difference and reports a negative amount exactly
when one exists; `Add` is commutative and associative, and `Sub` undoes it. -/
theorem coins_finiteMapLaws (toLower : String → String)
    (hlow : ∀ d, DenomValid d → toLower d = d) :
    CoinSet.FiniteMapLaws toLower SdkInt.amountOps SdkInt.i maxBitLen ∧
      CoinSet.FiniteMapLaws toLower Dec.amountOps Dec.int (maxBitLen + decimalPrecisionBits) :=
  ⟨CoinSet.finiteMapLaws SdkInt.amountOps_lawful hlow,
    CoinSet.finiteMapLaws Dec.amountOps_lawful hlow⟩

theorem coins_finiteMapLaws_id :
    (∀ d, DenomValid d → id d = d) ∧
      CoinSet.FiniteMapLaws id SdkInt.amountOps SdkInt.i maxBitLen ∧
      CoinSet.FiniteMapLaws id Dec.amountOps Dec.int (maxBitLen + decimalPrecisionBits) :=
  ⟨fun _ _ => rfl, coins_finiteMapLaws id fun _ _ => rfl⟩

end Barkis
