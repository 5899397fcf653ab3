import Barkis.Types.Coin
import Barkis.Types.Decimal

/-!
# Vesting accounts

`x/auth/types/account.go`: a vesting account holds `OriginalVesting` coins that vest over a
schedule, continuously between a start and an end time or all at the end time. What it may
spend at a block time is its coins less what is still vesting and not delegated, and its
delegations are split between delegated vesting and delegated free coins. The bank keeper's
`SubtractCoins`, `AddCoins`, `DelegateCoins` and `UndelegateCoins` act on it through these.
`x/genaccounts`: a genesis account with vesting coins is checked by `Validate` and turned into a
vesting account by `ToAccount`.

A call that panics or returns an error leaves the account as it was. Times are Unix seconds.

* `emptyVestingGenesis_locks`: `Validate` accepts a genesis account whose coins fall short of what
  it vests, and `SpendableCoins` of it then panics.
* `spendableCoins_after_run`: an account whose coins and delegated vesting coins cover what still
  vests (`Covered`) stays so through every run of the bank keeper's calls, and its
  `SpendableCoins` then panics only on an `sdk.Int` overflow.
-/

namespace Barkis.Auth

/-- The schedule of a vesting account: `ContinuousVestingAccount`, with its start time, or
`DelayedVestingAccount`. -/
inductive Schedule where
  | continuous (startTime : Int64)
  | delayed

/-- `BaseVestingAccount`, with the schedule of its kind. -/
structure VestingAccount where
  coins : Coins
  originalVesting : Coins
  delegatedFree : Coins
  delegatedVesting : Coins
  endTime : Int64
  schedule : Schedule

namespace VestingAccount

/-! ## Vested and spendable coins -/

/-- One coin of `GetVestedCoins` of a continuous vesting account:
`NewCoin(ovc.Denom, ovc.Amount.ToDec().Mul(s).RoundInt())`. -/
def vestedCoin (s : Dec) (ovc : Coin) : Option Coin := do
  let vestedAmt ← (Dec.newDecFromInt ovc.amount).mul s
  newCoin ovc.denom (← vestedAmt.roundInt)

/-- `GetVestedCoins`. -/
def getVestedCoins (acc : VestingAccount) (blockTime : Int64) : Option Coins :=
  match acc.schedule with
  | .continuous startTime =>
    if blockTime ≤ startTime then some []
    else if acc.endTime ≤ blockTime then some acc.originalVesting
    else do
      -- the vesting scalar, the part of the schedule that has passed
      let s ← (Dec.newDec (blockTime - startTime)).quo (Dec.newDec (acc.endTime - startTime))
      acc.originalVesting.mapM (vestedCoin s)
  | .delayed => some (if acc.endTime ≤ blockTime then acc.originalVesting else [])

/-- `GetVestingCoins`. -/
def getVestingCoins (acc : VestingAccount) (blockTime : Int64) : Option Coins :=
  acc.getVestedCoins blockTime >>= Coins.sub acc.originalVesting

/-- One coin of `BaseVestingAccount.spendableCoins`: `min((BC + DV) - V, BC)`, added where it is
not zero. -/
def spendableCoin (acc : VestingAccount) (vestingCoins spendableCoins : Coins) (coin : Coin) :
    Option Coins := do
  let vestingAmt ← Coins.amountOf vestingCoins coin.denom
  let delVestingAmt ← Coins.amountOf acc.delegatedVesting coin.denom
  let min := SdkInt.minInt (← (← coin.amount.add delVestingAmt).sub vestingAmt) coin.amount
  let spendableCoin ← newCoin coin.denom min
  if !Coin.isZero spendableCoin then Coins.add spendableCoins [spendableCoin]
  else pure spendableCoins

/-- `BaseVestingAccount.spendableCoins`, given the coins still vesting. -/
def baseSpendableCoins (acc : VestingAccount) (vestingCoins : Coins) : Option Coins :=
  acc.coins.foldlM (acc.spendableCoin vestingCoins) []

/-- `SpendableCoins`. -/
def spendableCoins (acc : VestingAccount) (blockTime : Int64) : Option Coins :=
  acc.getVestingCoins blockTime >>= acc.baseSpendableCoins

/-! ## Delegations -/

/-- One coin of `trackDelegation`, with `bc` the account's coins before the loop. -/
def trackDelegationCoin (bc vestingCoins : Coins) (acc : VestingAccount) (coin : Coin) :
    Option VestingAccount := do
  let baseAmt ← Coins.amountOf bc coin.denom
  let vestingAmt ← Coins.amountOf vestingCoins coin.denom
  let delVestingAmt ← Coins.amountOf acc.delegatedVesting coin.denom
  if coin.amount.isZero || decide (baseAmt.i < coin.amount.i) then none
  else do
    -- X := min(max(V - DV, 0), D) of the delegation is vesting, Y := D - X is free
    let x := SdkInt.minInt (SdkInt.maxInt (← vestingAmt.sub delVestingAmt) SdkInt.zeroInt)
      coin.amount
    let y ← coin.amount.sub x
    let delegatedVesting ←
      if !x.isZero then do Coins.add acc.delegatedVesting [← newCoin coin.denom x]
      else pure acc.delegatedVesting
    let delegatedFree ←
      if !y.isZero then do Coins.add acc.delegatedFree [← newCoin coin.denom y]
      else pure acc.delegatedFree
    let coins ← Coins.sub acc.coins [coin]
    pure { acc with coins, delegatedVesting, delegatedFree }

/-- `BaseVestingAccount.trackDelegation`, given the coins still vesting. -/
def baseTrackDelegation (acc : VestingAccount) (vestingCoins amount : Coins) :
    Option VestingAccount :=
  amount.foldlM (trackDelegationCoin acc.coins vestingCoins) acc

/-- `TrackDelegation`. -/
def trackDelegation (acc : VestingAccount) (blockTime : Int64) (amount : Coins) :
    Option VestingAccount :=
  acc.getVestingCoins blockTime >>= fun vestingCoins => acc.baseTrackDelegation vestingCoins amount

/-- One coin of `TrackUndelegation`. -/
def trackUndelegationCoin (acc : VestingAccount) (coin : Coin) : Option VestingAccount :=
  if coin.amount.isZero then none
  else do
    let delegatedFree ← Coins.amountOf acc.delegatedFree coin.denom
    let delegatedVesting ← Coins.amountOf acc.delegatedVesting coin.denom
    -- X := min(DF, D) of the undelegation was free, Y := min(DV, D - X) vesting
    let x := SdkInt.minInt delegatedFree coin.amount
    let y := SdkInt.minInt delegatedVesting (← coin.amount.sub x)
    let delegatedFree ←
      if !x.isZero then do Coins.sub acc.delegatedFree [← newCoin coin.denom x]
      else pure acc.delegatedFree
    let delegatedVesting ←
      if !y.isZero then do Coins.sub acc.delegatedVesting [← newCoin coin.denom y]
      else pure acc.delegatedVesting
    let coins ← Coins.add acc.coins [coin]
    pure { acc with coins, delegatedFree, delegatedVesting }

/-- `TrackUndelegation`. -/
def trackUndelegation (acc : VestingAccount) (amount : Coins) : Option VestingAccount :=
  amount.foldlM trackUndelegationCoin acc

end VestingAccount

/-! ## The coins a delegation moves -/

section Track

open VestingAccount SortedMerge

variable {bc V : Coins} {acc acc' : VestingAccount} {c : Coin}

/-- One coin of `TrackDelegation` takes the coin off the account's coins. -/
theorem trackDelegationCoin_coins (h : trackDelegationCoin bc V acc c = some acc') :
    Coins.sub acc.coins [c] = some acc'.coins := by
  simp only [trackDelegationCoin, Option.bind_eq_bind, Option.bind_eq_some_iff, Option.pure_def,
    Option.bind_some, ite_eq_iff, Option.some.injEq, reduceCtorEq, and_false, false_or] at h
  -- whichever delegated parts are recorded, the coins are written last
  obtain ⟨_, -, _, -, _, -, -, _, -, _, -, ⟨-, _, -, _, -, ⟨-, _, -, _, -, _, hsub, rfl⟩ |
    ⟨-, _, hsub, rfl⟩⟩ | ⟨-, ⟨-, _, -, _, -, _, hsub, rfl⟩ | ⟨-, _, hsub, rfl⟩⟩⟩ := h <;> exact hsub

/-- One coin of `TrackUndelegation` adds the coin to the account's coins. -/
theorem trackUndelegationCoin_coins (h : trackUndelegationCoin acc c = some acc') :
    Coins.add acc.coins [c] = some acc'.coins := by
  simp only [trackUndelegationCoin, Option.bind_eq_bind, Option.bind_eq_some_iff, Option.pure_def,
    Option.bind_some, ite_eq_iff, Option.some.injEq, reduceCtorEq, and_false, false_or] at h
  obtain ⟨-, _, -, _, -, _, -, ⟨-, _, -, _, -, ⟨-, _, -, _, -, _, hadd, rfl⟩ | ⟨-, _, hadd, rfl⟩⟩ |
    ⟨-, ⟨-, _, -, _, -, _, hadd, rfl⟩ | ⟨-, _, hadd, rfl⟩⟩⟩ := h <;> exact hadd

/-- The loop of `TrackDelegation` takes each coin of the amount off the account's coins. -/
theorem foldlM_trackDelegationCoin : ∀ (l : Coins) {acc acc' : VestingAccount},
    Sorted CoinOf.denom acc.coins → l.foldlM (trackDelegationCoin bc V) acc = some acc' →
    Sorted CoinOf.denom acc'.coins ∧ ∀ d, Coins.balance acc'.coins d =
      Coins.balance acc.coins d - (l.map fun c => Coins.balance [c] d).sum
  | [], _, _, hs, h => by
    cases h
    exact ⟨hs, by simp⟩
  | c :: l, _, _, hs, h => by
    rw [List.foldlM_cons] at h
    obtain ⟨acc₁, h₁, hl⟩ := Option.bind_eq_some_iff.1 h
    have hsub := trackDelegationCoin_coins h₁
    have hc : Sorted CoinOf.denom [c] := List.pairwise_singleton _ _
    obtain ⟨hs', hb'⟩ := foldlM_trackDelegationCoin l (Coins.sorted_sub hs hc hsub) hl
    refine ⟨hs', fun d => ?_⟩
    rw [hb', Coins.balance_sub hs hc hsub, List.map_cons, List.sum_cons]
    ring

/-- The loop of `TrackUndelegation` adds each coin of the amount to the account's coins. -/
theorem foldlM_trackUndelegationCoin : ∀ (l : Coins) {acc acc' : VestingAccount},
    Sorted CoinOf.denom acc.coins → l.foldlM trackUndelegationCoin acc = some acc' →
    Sorted CoinOf.denom acc'.coins ∧ ∀ d, Coins.balance acc'.coins d =
      Coins.balance acc.coins d + (l.map fun c => Coins.balance [c] d).sum
  | [], _, _, hs, h => by
    cases h
    exact ⟨hs, by simp⟩
  | c :: l, _, _, hs, h => by
    rw [List.foldlM_cons] at h
    obtain ⟨acc₁, h₁, hl⟩ := Option.bind_eq_some_iff.1 h
    have hadd := trackUndelegationCoin_coins h₁
    have hc : Sorted CoinOf.denom [c] := List.pairwise_singleton _ _
    obtain ⟨hs', hb'⟩ := foldlM_trackUndelegationCoin l (Coins.sorted_add hs hc hadd) hl
    refine ⟨hs', fun d => ?_⟩
    rw [hb', Coins.balance_add hs hc hadd, List.map_cons, List.sum_cons]
    ring

variable {amount : Coins} (hs : Sorted CoinOf.denom acc.coins) (ha : Sorted CoinOf.denom amount)
include hs ha

/-- `TrackDelegation` of a sorted amount takes it off the account's coins, and `TrackUndelegation`
adds it back: only the delegated vesting and delegated free coins tell the two apart. -/
theorem trackDelegation_coins {t : Int64} (h : acc.trackDelegation t amount = some acc') :
    Sorted CoinOf.denom acc'.coins ∧
      ∀ d, Coins.balance acc'.coins d = Coins.balance acc.coins d - Coins.balance amount d := by
  obtain ⟨V, -, h⟩ := Option.bind_eq_some_iff.1 h
  obtain ⟨hs', hb⟩ := foldlM_trackDelegationCoin amount hs h
  exact ⟨hs', fun d => by rw [hb, ← Coins.balance_eq_sum ha]⟩

theorem trackUndelegation_coins (h : acc.trackUndelegation amount = some acc') :
    Sorted CoinOf.denom acc'.coins ∧
      ∀ d, Coins.balance acc'.coins d = Coins.balance acc.coins d + Coins.balance amount d := by
  obtain ⟨hs', hb⟩ := foldlM_trackUndelegationCoin amount hs h
  exact ⟨hs', fun d => by rw [hb, ← Coins.balance_eq_sum ha]⟩
end Track

/-! ## The bank keeper on a vesting account -/

/-- The bank keeper's calls on the account, each with its amount. -/
inductive Op where
  | subtractCoins (amt : Coins)
  | addCoins (amt : Coins)
  | delegateCoins (amt : Coins)
  | undelegateCoins (amt : Coins)

/-- The amount of a call. -/
def Op.amount : Op → Coins
  | .subtractCoins amt | .addCoins amt | .delegateCoins amt | .undelegateCoins amt => amt

section Bank

variable (toLower : String → String)

open VestingAccount

/-- `SetCoins`. -/
def setCoins (acc : VestingAccount) (amt : Coins) : Option VestingAccount :=
  if Coins.isValid toLower amt then some { acc with coins := amt } else none

/-- `SubtractCoins`: only spendable coins can be taken. -/
def subtractCoins (acc : VestingAccount) (blockTime : Int64) (amt : Coins) :
    Option VestingAccount := do
  if !Coins.isValid toLower amt then none
  else
    let spendableCoins ← acc.spendableCoins blockTime
    let (_, hasNeg) ← Coins.safeSub spendableCoins amt
    if hasNeg then none
    else setCoins toLower acc (← Coins.sub acc.coins amt)

/-- `AddCoins`. -/
def addCoins (acc : VestingAccount) (amt : Coins) : Option VestingAccount := do
  if !Coins.isValid toLower amt then none
  else
    let newCoins ← Coins.add acc.coins amt
    if Coins.isAnyNegative newCoins then none else setCoins toLower acc newCoins

/-- `DelegateCoins`, on the delegator's side: the module account is credited after. -/
def delegateCoins (acc : VestingAccount) (blockTime : Int64) (amt : Coins) :
    Option VestingAccount := do
  if !Coins.isValid toLower amt then none
  else
    let (_, hasNeg) ← Coins.safeSub acc.coins amt
    if hasNeg then none else acc.trackDelegation blockTime amt

/-- `UndelegateCoins`, on the delegator's side: the module account pays first. -/
def undelegateCoins (acc : VestingAccount) (amt : Coins) : Option VestingAccount :=
  if !Coins.isValid toLower amt then none else acc.trackUndelegation amt

/-- One call at a block time. -/
def step (acc : VestingAccount) (blockTime : Int64) : Op → Option VestingAccount
  | .subtractCoins amt => subtractCoins toLower acc blockTime amt
  | .addCoins amt => addCoins toLower acc amt
  | .delegateCoins amt => delegateCoins toLower acc blockTime amt
  | .undelegateCoins amt => undelegateCoins toLower acc amt

/-- Calls at their block times; one that fails leaves the account as it was. -/
def run (acc : VestingAccount) (ops : List (Int64 × Op)) : VestingAccount :=
  ops.foldl (fun acc op => (step toLower acc op.1 op.2).getD acc) acc

end Bank

/-! ## Genesis -/

/-- The fields of `GenesisAccount` that `Validate` and `ToAccount` read. -/
structure GenesisAccount where
  coins : Coins
  originalVesting : Coins
  delegatedFree : Coins
  delegatedVesting : Coins
  startTime : Int64
  endTime : Int64
  moduleName : String

/-- `GenesisAccount.Validate`; `IsAnyGT` panics on an invalid denom. -/
def GenesisAccount.validate (ga : GenesisAccount) : Option (Except String Unit) := do
  if !Coins.isZero ga.originalVesting then
    if ← Coins.isAnyGT ga.originalVesting ga.coins then
      return .error "vesting amount cannot be greater than total amount"
    if ga.endTime ≤ ga.startTime then
      return .error "vesting start-time cannot be before end-time"
  if ga.moduleName ≠ "" ∧ ga.moduleName.all Char.isWhitespace then
    return .error "module account name cannot be blank"
  return .ok ()

/-- `ToAccount` of a genesis account whose `OriginalVesting` is not zero: a continuous vesting
account where both times are set, a delayed one where only the end time is, and a panic where
the end time is zero. -/
def GenesisAccount.toVestingAccount (ga : GenesisAccount) : Option VestingAccount :=
  let bva (schedule : Schedule) : VestingAccount :=
    ⟨Coins.sort ga.coins, ga.originalVesting, ga.delegatedFree, ga.delegatedVesting, ga.endTime,
      schedule⟩
  if ga.startTime ≠ 0 ∧ ga.endTime ≠ 0 then some (bva (.continuous ga.startTime))
  else if ga.endTime ≠ 0 then some (bva .delayed)
  else none

/-- 100 `stake`. -/
def hundredStake : Coins := [⟨"stake", ⟨100, by decide⟩⟩]

/-- A genesis account that holds nothing and vests 100 `stake` until time 10. -/
def emptyVestingGenesis : GenesisAccount := ⟨[], hundredStake, [], [], 0, 10, ""⟩

/-- `Validate` accepts a genesis account vesting more than it holds of a denom it holds none of:
`IsAnyGT` skips that denom. The account's coins and delegated vesting coins then fall short of
its vesting coins, and once it receives one `stake`, `SpendableCoins` panics on the negative
amount `1 - 100`. -/
theorem emptyVestingGenesis_locks :
    emptyVestingGenesis.validate = some (.ok ()) ∧
      ∃ acc, emptyVestingGenesis.toVestingAccount = some acc ∧
        acc.getVestingCoins 0 = some hundredStake ∧
        ∃ acc', addCoins id acc [⟨"stake", ⟨1, by decide⟩⟩] = some acc' ∧
          acc'.spendableCoins 0 = none :=
  ⟨rfl, ⟨[], hundredStake, [], [], 10, .delayed⟩,
    by simp [GenesisAccount.toVestingAccount, emptyVestingGenesis, Coins.sort], by decide +kernel,
    ⟨[⟨"stake", ⟨1, by decide⟩⟩], hundredStake, [], [], 10, .delayed⟩, rfl, by decide +kernel⟩

/-! ## What vests -/

section Schedule

open Dec

/-- The vesting scalar `NewDec(x).Quo(NewDec(y))`, in units of `10⁻¹⁸`. -/
def vestingScalar (x y : Int) : Int :=
  chopPrecisionAndRound
    ((x * precisionReuse * precisionReuse * precisionReuse).tdiv (y * precisionReuse))

/-- `amount.ToDec().Mul(s).RoundInt()`, for a scalar `s` in units of `10⁻¹⁸`. -/
def vestedInt (s amount : Int) : Int :=
  chopPrecisionAndRound (chopPrecisionAndRound (amount * precisionReuse * s))

/-- A schedule `GetVestedCoins` computes without overflow: a continuous one starts at a time not
before zero and ends after it starts. -/
def VestingAccount.Scheduled (acc : VestingAccount) : Prop :=
  match acc.schedule with
  | .continuous startTime => 0 ≤ startTime.toInt ∧ startTime.toInt < acc.endTime.toInt
  | .delayed => True

/-- The amount of a denom vested at a block time, as `GetVestedCoins` computes it. -/
def vestedAmount (acc : VestingAccount) (blockTime : Int64) (d : String) : Int :=
  match acc.schedule with
  | .continuous startTime =>
    if blockTime ≤ startTime then 0
    else if acc.endTime ≤ blockTime then Coins.balance acc.originalVesting d
    else vestedInt (vestingScalar (blockTime.toInt - startTime.toInt)
      (acc.endTime.toInt - startTime.toInt)) (Coins.balance acc.originalVesting d)
  | .delayed => if acc.endTime ≤ blockTime then Coins.balance acc.originalVesting d else 0

theorem vestingScalar_mem {x y : Int} (hx : 0 ≤ x) (hxy : x ≤ y) :
    0 ≤ vestingScalar x y ∧ vestingScalar x y ≤ precisionReuse := by
  have hP := precisionReuse_pos
  have hn : 0 ≤ x * precisionReuse * precisionReuse * precisionReuse := by positivity
  have hq0 := Int.tdiv_nonneg hn (Int.mul_nonneg (hx.trans hxy) hP.le)
  rw [vestingScalar, chopPrecisionAndRound_of_nonneg hq0]
  refine ⟨chopNonNegAndRound_nonneg hq0, chopNonNegAndRound_le hq0 ?_⟩
  rcases (hx.trans hxy).lt_or_eq with hy | hy
  · -- the quotient is at most `10 ^ 36` because `x ≤ y`
    rw [Int.tdiv_eq_ediv_of_nonneg hn]
    apply Int.ediv_le_of_le_mul (Int.mul_pos hy hP)
    calc x * precisionReuse * precisionReuse * precisionReuse
        ≤ y * precisionReuse * precisionReuse * precisionReuse := by gcongr
      _ = precisionReuse * precisionReuse * (y * precisionReuse) := by ring
  · rw [← hy, zero_mul, Int.tdiv_zero]
    positivity

theorem vestingScalar_mono {x x' y : Int} (hx : 0 ≤ x) (hxx : x ≤ x') (hy : 0 < y) :
    vestingScalar x y ≤ vestingScalar x' y := by
  have hP := precisionReuse_pos
  have hn : 0 ≤ x * precisionReuse * precisionReuse * precisionReuse := by positivity
  have hn' : 0 ≤ x' * precisionReuse * precisionReuse * precisionReuse := by
    have := hx.trans hxx
    positivity
  have hy' : 0 < y * precisionReuse := Int.mul_pos hy hP
  apply chopPrecisionAndRound_mono (Int.tdiv_nonneg hn hy'.le)
  rw [Int.tdiv_eq_ediv_of_nonneg hn, Int.tdiv_eq_ediv_of_nonneg hn']
  exact Int.ediv_le_ediv hy' (by gcongr)

theorem vestedInt_mem {s a : Int} (ha : 0 ≤ a) (hs0 : 0 ≤ s) (hs1 : s ≤ precisionReuse) :
    0 ≤ vestedInt s a ∧ vestedInt s a ≤ a := by
  have hb : 0 ≤ a * precisionReuse := Int.mul_nonneg ha precisionReuse_pos.le
  obtain ⟨h0, h1⟩ := chopPrecisionAndRound_mul_mem hb hs0 hs1
  rw [vestedInt, chopPrecisionAndRound_of_nonneg h0]
  exact ⟨chopNonNegAndRound_nonneg h0, chopNonNegAndRound_le h0 h1⟩

theorem vestedInt_mono {s s' a : Int} (ha : 0 ≤ a) (hs : 0 ≤ s) (hss : s ≤ s') :
    vestedInt s a ≤ vestedInt s' a := by
  have hb : 0 ≤ a * precisionReuse := Int.mul_nonneg ha precisionReuse_pos.le
  have hm : 0 ≤ a * precisionReuse * s := Int.mul_nonneg hb hs
  have hr : 0 ≤ chopPrecisionAndRound (a * precisionReuse * s) := by
    rw [chopPrecisionAndRound_of_nonneg hm]
    exact chopNonNegAndRound_nonneg hm
  exact chopPrecisionAndRound_mono hr
    (chopPrecisionAndRound_mono hm (Int.mul_le_mul_of_nonneg_left hss hb))

variable {acc : VestingAccount}

theorem vestedAmount_mem (ho : ∀ d, 0 ≤ Coins.balance acc.originalVesting d) (t : Int64)
    (d : String) :
    0 ≤ vestedAmount acc t d ∧ vestedAmount acc t d ≤ Coins.balance acc.originalVesting d := by
  unfold vestedAmount
  split
  · split_ifs with h1 h2
    · exact ⟨le_rfl, ho d⟩
    · exact ⟨ho d, le_rfl⟩
    · rw [Int64.le_iff_toInt_le, not_le] at h1 h2
      exact vestedInt_mem (ho d) (vestingScalar_mem (by omega) (by omega)).1
        (vestingScalar_mem (by omega) (by omega)).2
  · split_ifs
    · exact ⟨ho d, le_rfl⟩
    · exact ⟨le_rfl, ho d⟩

/-- Vesting only moves forward: a later block time has vested no less. -/
theorem vestedAmount_mono (ho : ∀ d, 0 ≤ Coins.balance acc.originalVesting d) {t t' : Int64}
    (htt : t.toInt ≤ t'.toInt) (d : String) : vestedAmount acc t d ≤ vestedAmount acc t' d := by
  have hmem := vestedAmount_mem ho
  have hOV := ho d
  unfold vestedAmount at hmem ⊢
  split
  · rename_i startTime hst
    rw [hst] at hmem
    simp only [Int64.le_iff_toInt_le] at hmem ⊢
    -- `t` before, inside or after the schedule
    by_cases h1 : t.toInt ≤ startTime.toInt
    · rw [if_pos h1]
      exact (hmem t' d).1
    by_cases h2 : acc.endTime.toInt ≤ t.toInt
    · rw [if_neg h1, if_pos h2, if_neg (by omega), if_pos (by omega)]
    have hin := (hmem t d).2
    rw [if_neg h1, if_neg h2] at hin
    rw [if_neg h1, if_neg h2, if_neg (show ¬t'.toInt ≤ startTime.toInt by omega)]
    by_cases h3 : acc.endTime.toInt ≤ t'.toInt
    · rwa [if_pos h3]
    · rw [if_neg h3]
      exact vestedInt_mono hOV (vestingScalar_mem (by omega) (by omega)).1
        (vestingScalar_mono (by omega) (by omega) (by omega))
  · rename_i hst
    rw [hst] at hmem
    simp only [Int64.le_iff_toInt_le] at hmem ⊢
    by_cases h1 : acc.endTime.toInt ≤ t.toInt
    · rw [if_pos h1, if_pos (by omega)]
    · rw [if_neg h1]
      exact (hmem t' d).1

end Schedule

/-! ## `GetVestingCoins` -/

section Vesting

open Dec CoinSet SortedMerge VestingAccount

variable {acc : VestingAccount}

/-- A difference of two times of a schedule that starts at a time not before zero does not
overflow. -/
theorem toInt_sub_of_le {a b : Int64} (hb : 0 ≤ b.toInt) (hba : b.toInt ≤ a.toInt) :
    (a - b).toInt = a.toInt - b.toInt := by
  have ha := Int64.toInt_lt a
  rw [Int64.toInt_sub]
  exact Int.bmod_eq_of_le (by norm_num; omega) (by norm_num; omega)

theorem vestedInt_zero (s : Int) : vestedInt s 0 = 0 := by
  simp [vestedInt, chopPrecisionAndRound, chopNonNegAndRound]

theorem vestedCoin_spec {s : Dec} (hs0 : 0 ≤ s.int) (hs1 : s.int ≤ precisionReuse) {c : Coin}
    (hd : DenomValid c.denom) (ha : 0 ≤ c.amount.i) :
    ∃ c', vestedCoin s c = some c' ∧ c'.denom = c.denom ∧
      c'.amount.i = vestedInt s.int c.amount.i := by
  have hb : 0 ≤ c.amount.i * precisionReuse := Int.mul_nonneg ha precisionReuse_pos.le
  obtain ⟨h0, h1⟩ := chopPrecisionAndRound_mul_mem hb hs0 hs1
  -- the product is a `Dec` no larger than the amount's, and rounds to an `sdk.Int` no larger
  obtain ⟨m, hm, hmi⟩ := exists_checked_of_le (newDecFromInt c.amount) h0 h1
  obtain ⟨v0, v1⟩ := vestedInt_mem ha hs0 hs1
  obtain ⟨v, hv, hvi⟩ := SdkInt.exists_checked_of_natAbs_le c.amount
    (show (vestedInt s.int c.amount.i).natAbs ≤ c.amount.i.natAbs by omega)
  have hround : m.roundInt = some v := by
    rw [roundInt, SdkInt.newIntFromBigInt, hmi]
    exact hv
  have hcoin : newCoin c.denom v = some ⟨c.denom, v⟩ := by
    rw [newCoin, if_pos]
    simp only [Bool.and_eq_true, Bool.not_eq_true', SdkInt.isNegative, decide_eq_false_iff_not,
      not_lt]
    exact ⟨hd, hvi ▸ v0⟩
  refine ⟨⟨c.denom, v⟩, ?_, rfl, hvi⟩
  simp only [vestedCoin, Dec.mul, newDecFromInt_int, hm, hround, hcoin, Option.bind_eq_bind,
    Option.bind_some]

theorem mapM_vestedCoin {s : Dec} (hs0 : 0 ≤ s.int) (hs1 : s.int ≤ precisionReuse) :
    ∀ l : Coins, (∀ c ∈ l, DenomValid c.denom ∧ 0 ≤ c.amount.i) →
      ∃ l', l.mapM (vestedCoin s) = some l' ∧ l'.map CoinOf.denom = l.map CoinOf.denom ∧
        (∀ c ∈ l', 0 ≤ c.amount.i) ∧ ∀ d, Coins.balance l' d = vestedInt s.int (Coins.balance l d)
  | [], _ => ⟨[], rfl, rfl, by simp, fun d => (vestedInt_zero s.int).symm⟩
  | c :: l, h => by
    obtain ⟨hd, ha⟩ := h c List.mem_cons_self
    obtain ⟨c', hc', hden, hamt⟩ := vestedCoin_spec hs0 hs1 hd ha
    obtain ⟨l', hl', hmap, hnn, hbal⟩ :=
      mapM_vestedCoin hs0 hs1 l fun x hx => h x (List.mem_cons_of_mem c hx)
    refine ⟨c' :: l', ?_, by simp [hmap, hden], fun x hx => ?_, fun d => ?_⟩
    · rw [List.mapM_cons, hc', hl']
      rfl
    · rcases List.mem_cons.1 hx with rfl | hx
      · rw [hamt]
        exact (vestedInt_mem ha hs0 hs1).1
      · exact hnn x hx
    · rw [Coins.balance_cons, Coins.balance_cons, hden, hamt, hbal]
      split_ifs <;> rfl

theorem getVestedCoins_spec (hs : acc.Scheduled) (ho : NonNeg SdkInt.i acc.originalVesting)
    (hd : ∀ c ∈ acc.originalVesting, DenomValid c.denom) (t : Int64) :
    ∃ vested, acc.getVestedCoins t = some vested ∧ NonNeg SdkInt.i vested ∧
      ∀ d, Coins.balance vested d = vestedAmount acc t d := by
  unfold VestingAccount.getVestedCoins vestedAmount
  unfold VestingAccount.Scheduled at hs
  split
  · rename_i startTime hst
    rw [hst] at hs
    split_ifs with h1 h2
    · exact ⟨[], rfl, ⟨List.Pairwise.nil, by simp⟩, fun _ => rfl⟩
    · exact ⟨_, rfl, ho, fun _ => rfl⟩
    · rw [Int64.le_iff_toInt_le, not_le] at h1 h2
      -- inside the schedule neither difference of times overflows
      have hx := toInt_sub_of_le hs.1 h1.le
      have hy := toInt_sub_of_le hs.1 hs.2.le
      have hy0 : (newDec (acc.endTime - startTime)).int ≠ 0 := by
        rw [newDec_int, hy]
        exact (Int.mul_pos (by omega) precisionReuse_pos).ne'
      have hquo : (newDec (t - startTime)).quo (newDec (acc.endTime - startTime)) =
          checked (vestingScalar (t.toInt - startTime.toInt)
            (acc.endTime.toInt - startTime.toInt)) := by
        unfold quo quoRaw
        rw [if_neg hy0]
        simp only [newDec_int, hx, hy]
        rfl
      have hs01 : 0 ≤ t.toInt - startTime.toInt ∧
          t.toInt - startTime.toInt ≤ acc.endTime.toInt - startTime.toInt := by omega
      obtain ⟨s0, s1⟩ := vestingScalar_mem hs01.1 hs01.2
      obtain ⟨sc, hsc, hsci⟩ := exists_checked_of_le oneDec s0 s1
      obtain ⟨l', hl', hmap, hnn, hbal⟩ := mapM_vestedCoin (hsci ▸ s0) (hsci ▸ s1)
        acc.originalVesting fun c hc => ⟨hd c hc, ho.nonneg c hc⟩
      -- the vested coins have the denoms of the original vesting coins, in their order
      have hsorted : Sorted CoinOf.denom l' := by
        have h := List.pairwise_map.2 ho.sorted
        rw [← hmap] at h
        exact List.pairwise_map.1 h
      refine ⟨l', ?_, ⟨hsorted, hnn⟩, fun d => by rw [hbal, hsci]⟩
      simp only [hquo, hsc, Option.bind_eq_bind, Option.bind_some]
      exact hl'
  · split_ifs
    · exact ⟨_, rfl, ho, fun _ => rfl⟩
    · exact ⟨[], rfl, ⟨List.Pairwise.nil, by simp⟩, fun _ => rfl⟩

end Vesting

/-! ## The books of a vesting account -/

section Books

open Dec CoinSet SortedMerge VestingAccount

/-- What a vesting account keeps at every time: coin sets sorted with no negative amount, coins
and original vesting coins of denoms that pass `validateDenom`, and a schedule that computes. -/
structure VestingAccount.WellFormed (acc : VestingAccount) : Prop where
  coins : NonNeg SdkInt.i acc.coins
  coins_denoms : ∀ c ∈ acc.coins, DenomValid c.denom
  originalVesting : NonNeg SdkInt.i acc.originalVesting
  originalVesting_denoms : ∀ c ∈ acc.originalVesting, DenomValid c.denom
  delegatedFree : NonNeg SdkInt.i acc.delegatedFree
  delegatedVesting : NonNeg SdkInt.i acc.delegatedVesting
  scheduled : acc.Scheduled

/-- The books at a block time: at every denom the coins and the delegated vesting coins cover
what is still vesting. -/
structure VestingAccount.Covered (acc : VestingAccount) (t : Int64) : Prop
    extends acc.WellFormed where
  covered : ∀ d, Coins.balance acc.originalVesting d - vestedAmount acc t d ≤
    Coins.balance acc.coins d + Coins.balance acc.delegatedVesting d

variable {acc : VestingAccount} {t : Int64}

/-- What is covered at a block time stays covered later. -/
theorem VestingAccount.Covered.later (h : acc.Covered t) {t' : Int64} (htt : t.toInt ≤ t'.toInt) :
    acc.Covered t' where
  toWellFormed := h.toWellFormed
  covered d := by
    have := vestedAmount_mono (balance_nonneg h.originalVesting.nonneg) htt d
    linarith [h.covered d]

theorem getVestingCoins_spec (hw : acc.WellFormed) (t : Int64) :
    ∃ V, acc.getVestingCoins t = some V ∧ NonNeg SdkInt.i V ∧
      ∀ d, Coins.balance V d = Coins.balance acc.originalVesting d - vestedAmount acc t d := by
  obtain ⟨vested, hv, hvn, hvb⟩ :=
    getVestedCoins_spec hw.scheduled hw.originalVesting hw.originalVesting_denoms t
  obtain ⟨V, hV, hVn, hVb⟩ := sub_spec SdkInt.amountOps_lawful hw.originalVesting hvn fun d => by
    show Coins.balance vested d ≤ Coins.balance acc.originalVesting d
    rw [hvb]
    exact (vestedAmount_mem (balance_nonneg hw.originalVesting.nonneg) t d).2
  refine ⟨V, ?_, hVn, fun d => by rw [← hvb]; exact hVb d⟩
  rw [getVestingCoins, hv, Option.bind_eq_bind, Option.bind_some]
  exact hV

/-- What `spendableCoins` leaves spendable of a denom: `min((BC + DV) - V, BC)`. -/
def spendableAmount (acc : VestingAccount) (t : Int64) (d : String) : Int :=
  min (Coins.balance acc.coins d + Coins.balance acc.delegatedVesting d -
    (Coins.balance acc.originalVesting d - vestedAmount acc t d)) (Coins.balance acc.coins d)

theorem spendableAmount_mem (h : acc.Covered t) (d : String) :
    0 ≤ spendableAmount acc t d ∧ spendableAmount acc t d ≤ Coins.balance acc.coins d := by
  have := h.covered d
  have := balance_nonneg h.coins.nonneg d
  exact ⟨le_min (by linarith) this, min_le_right _ _⟩

/-- What is spendable, the coins and delegated vesting coins still cover what vests. -/
theorem spendableAmount_le_cover (acc : VestingAccount) (t : Int64) (d : String) :
    spendableAmount acc t d ≤ Coins.balance acc.coins d + Coins.balance acc.delegatedVesting d -
      (Coins.balance acc.originalVesting d - vestedAmount acc t d) :=
  min_le_left _ _

/-- Coin sets whose sum at every denom fits an `sdk.Int`. -/
def Fits (a b : Coins) : Prop := ∀ d, (Coins.balance a d + Coins.balance b d).natAbs < 2 ^ maxBitLen

/-- One coin of `spendableCoins`, at a denom the result does not hold yet. -/
theorem spendableCoin_step (h : acc.Covered t) {V : Coins} (hV : NonNeg SdkInt.i V)
    (hVb : ∀ d, Coins.balance V d = Coins.balance acc.originalVesting d - vestedAmount acc t d)
    (hfit : Fits acc.coins acc.delegatedVesting) {sp : Coins} {c : Coin} (hc : c ∈ acc.coins)
    (hsp : Sorted CoinOf.denom sp) (hfree : Coins.balance sp c.denom = 0) :
    ∃ sp', acc.spendableCoin V sp c = some sp' ∧ Sorted CoinOf.denom sp' ∧
      (∀ d, Coins.balance sp' d = Coins.balance sp d +
        if c.denom = d then spendableAmount acc t c.denom else 0) ∧
      ∀ a ∈ sp', a.denom = c.denom ∨ ∃ y ∈ sp, y.denom = a.denom := by
  have hd := h.coins_denoms c hc
  have hbc : Coins.balance acc.coins c.denom = c.amount.i := balance_of_mem h.coins.sorted hc
  obtain ⟨v, hv, hvi⟩ := amountOf_eq_some SdkInt.amountOps_lawful hV.sorted hd
  obtain ⟨w, hw, hwi⟩ := amountOf_eq_some SdkInt.amountOps_lawful h.delegatedVesting.sorted hd
  obtain ⟨m0, m1⟩ := spendableAmount_mem h c.denom
  -- `BC + DV` fits by assumption, and `BC + DV - V` lies between zero and it
  have hcov := h.covered c.denom
  have hV0 := balance_nonneg hV.nonneg c.denom
  have hfit' := hfit c.denom
  rw [hbc] at hfit' hcov m1
  rw [← hVb] at hcov
  have hb1 : (c.amount.i + w.i).natAbs < 2 ^ maxBitLen := by
    rw [hwi]
    exact hfit'
  have hb2 : (c.amount.i + w.i - v.i).natAbs < 2 ^ maxBitLen := by
    have hcov' : v.i ≤ c.amount.i + w.i := by
      rw [hvi, hwi]
      exact hcov
    rw [← hvi] at hV0
    omega
  have hsum : c.amount.add w = some ⟨c.amount.i + w.i, hb1⟩ := SdkInt.add_eq_some.2 ⟨rfl, hb1⟩
  have hdiff : SdkInt.sub ⟨c.amount.i + w.i, hb1⟩ v = some ⟨c.amount.i + w.i - v.i, hb2⟩ :=
    SdkInt.sub_eq_some.2 ⟨rfl, hb2⟩
  set m := SdkInt.minInt ⟨c.amount.i + w.i - v.i, hb2⟩ c.amount with hm
  have hmi : m.i = spendableAmount acc t c.denom := by
    rw [hm, SdkInt.minInt_i, spendableAmount, hbc, ← hVb]
    change min (c.amount.i + w.i - v.i) c.amount.i = _
    rw [hvi, hwi]
    rfl
  have hcoin : newCoin c.denom m = some ⟨c.denom, m⟩ := by
    rw [newCoin, if_pos]
    simp only [Bool.and_eq_true, Bool.not_eq_true', SdkInt.isNegative, decide_eq_false_iff_not,
      not_lt]
    exact ⟨hd, hmi ▸ m0⟩
  simp only [spendableCoin, Coins.amountOf, hv, hw, hsum, hdiff, ← hm, hcoin, Option.bind_eq_bind,
    Option.bind_some]
  by_cases hz : m.i = 0
  · -- nothing spendable of this denom: the result stays
    have hz' : Coin.isZero ⟨c.denom, m⟩ = true := (CoinSet.isZero_iff SdkInt.amountOps_lawful _).2 hz
    simp only [hz', Bool.not_true, Bool.false_eq_true, ↓reduceIte, Option.pure_def]
    refine ⟨sp, rfl, hsp, fun d => ?_, fun a ha => Or.inr ⟨a, ha, rfl⟩⟩
    rw [← hmi, hz, ite_self, add_zero]
  · have hz' : Coin.isZero ⟨c.denom, m⟩ = false :=
      Bool.eq_false_iff.2 fun h' => hz ((CoinSet.isZero_iff SdkInt.amountOps_lawful _).1 h')
    simp only [hz', Bool.not_false, ↓reduceIte]
    have hfree' : balance SdkInt.i sp (⟨c.denom, m⟩ : Coin).denom = 0 := hfree
    obtain ⟨sp', hsp', hs', hb', hden⟩ := safeAdd_single SdkInt.amountOps_lawful hsp hfree'
    refine ⟨sp', hsp', hs', fun d => ?_, hden⟩
    show balance SdkInt.i sp' d = _
    rw [hb' d, ← hmi]
    rfl

end Books

/-! ## A covered account stays covered

`SpendableCoins` of a covered account returns exactly when its coins and delegated vesting coins
add up in range at every denom, and every bank keeper call that returns keeps the account
covered: an account covered at genesis never meets the panic of `emptyVestingGenesis_locks`. -/

section Covered

open Dec CoinSet SortedMerge VestingAccount

variable {acc acc' : VestingAccount} {t : Int64}

/-- Nothing is spendable of a denom the account does not hold. -/
theorem spendableAmount_of_balance_eq_zero (h : acc.Covered t) {d : String}
    (hd : Coins.balance acc.coins d = 0) : spendableAmount acc t d = 0 := by
  have := h.covered d
  rw [spendableAmount, hd]
  exact min_eq_right (by linarith)

theorem lookup_spendableAmount (h : acc.Covered t) (d : String) :
    lookup CoinOf.denom (fun c : Coin => spendableAmount acc t c.denom) acc.coins d =
      spendableAmount acc t d := by
  by_cases hd : ∃ c ∈ acc.coins, c.denom = d
  · obtain ⟨c, hc, rfl⟩ := hd
    exact lookup_of_mem _ h.coins.sorted hc
  · push Not at hd
    rw [lookup_eq_zero _ _ hd, spendableAmount_of_balance_eq_zero h (lookup_eq_zero _ _ hd)]

/-- `SpendableCoins` of a covered account whose coins and delegated vesting coins add up in range
returns, and leaves `min((BC + DV) - V, BC)` spendable of every denom. -/
theorem spendableCoins_spec (h : acc.Covered t) (hfit : Fits acc.coins acc.delegatedVesting) :
    ∃ sp, acc.spendableCoins t = some sp ∧ NonNeg SdkInt.i sp ∧
      ∀ d, Coins.balance sp d = spendableAmount acc t d := by
  obtain ⟨V, hV, hVn, hVb⟩ := getVestingCoins_spec h.toWellFormed t
  -- each coin adds what is spendable of its denom, which the result does not hold yet
  obtain ⟨sp, hsp, hs, hb⟩ := foldlM_addEach (P := (· ∈ acc.coins)) (acc.spendableCoin V)
    (fun c => spendableAmount acc t c.denom)
    (fun _ _ hc hsp hfree => spendableCoin_step h hVn hVb hfit hc hsp hfree)
    acc.coins [] (fun _ hc => hc) h.coins.sorted List.Pairwise.nil (by simp)
  have hbal : ∀ d, Coins.balance sp d = spendableAmount acc t d := fun d => by
    rw [Coins.balance, hb, lookup_spendableAmount h, balance, lookup_nil, zero_add]
  refine ⟨sp, ?_, NonNeg.of_balance hs fun d => ?_, hbal⟩
  · simp only [spendableCoins, hV, Option.bind_eq_bind, Option.bind_some]
    exact hsp
  · rw [← Coins.balance, hbal]
    exact (spendableAmount_mem h d).1

/-- One coin of `SpendableCoins` that returns: the account's coins and delegated vesting coins of
its denom add up in range. -/
theorem spendableCoin_fits (hw : acc.WellFormed) {V sp sp' : Coins} {c : Coin}
    (hc : c ∈ acc.coins) (h : acc.spendableCoin V sp c = some sp') :
    (Coins.balance acc.coins c.denom + Coins.balance acc.delegatedVesting c.denom).natAbs <
      2 ^ maxBitLen := by
  simp only [spendableCoin, Option.bind_eq_bind, Option.bind_eq_some_iff] at h
  obtain ⟨-, -, w, hw', s, hs, -⟩ := h
  have hbc : Coins.balance acc.coins c.denom = c.amount.i := balance_of_mem hw.coins.sorted hc
  rw [hbc, ← (Coins.amountOf_eq_balance hw.delegatedVesting.sorted hw').2]
  exact (SdkInt.add_eq_some.1 hs).2

theorem foldlM_spendableCoin_fits (hw : acc.WellFormed) {V : Coins} :
    ∀ (l : Coins) {sp r : Coins}, (∀ c ∈ l, c ∈ acc.coins) →
      l.foldlM (acc.spendableCoin V) sp = some r → ∀ c ∈ l,
        (Coins.balance acc.coins c.denom + Coins.balance acc.delegatedVesting c.denom).natAbs <
          2 ^ maxBitLen
  | [], _, _, _, _, _, hc => absurd hc List.not_mem_nil
  | c :: l, _, _, hl, h, x, hx => by
    rw [List.foldlM_cons] at h
    obtain ⟨sp₁, h₁, hrest⟩ := Option.bind_eq_some_iff.1 h
    rcases List.mem_cons.1 hx with rfl | hx
    · exact spendableCoin_fits hw (hl x List.mem_cons_self) h₁
    · exact foldlM_spendableCoin_fits hw l (fun c hc => hl c (List.mem_cons_of_mem _ hc)) hrest x hx

/-- `SpendableCoins` that returns: the account's coins and delegated vesting coins add up in
range at every denom. -/
theorem fits_of_spendableCoins (hw : acc.WellFormed) {sp : Coins}
    (h : acc.spendableCoins t = some sp) : Fits acc.coins acc.delegatedVesting := by
  simp only [spendableCoins, Option.bind_eq_bind, Option.bind_eq_some_iff] at h
  obtain ⟨V, -, hb⟩ := h
  intro d
  by_cases hd : ∃ c ∈ acc.coins, c.denom = d
  · obtain ⟨c, hc, rfl⟩ := hd
    exact foldlM_spendableCoin_fits hw acc.coins (fun _ => id) hb c hc
  · -- a denom the account does not hold: only the delegated vesting coins count
    push Not at hd
    have h0 : Coins.balance acc.coins d = 0 := lookup_eq_zero _ _ hd
    rw [h0, zero_add]
    exact balance_bound SdkInt.amountOps_lawful acc.delegatedVesting d

/-- What `SpendableCoins` of a covered account returns, when it returns. -/
theorem spendableCoins_eq (h : acc.Covered t) {sp : Coins}
    (hsp : acc.spendableCoins t = some sp) :
    NonNeg SdkInt.i sp ∧ ∀ d, Coins.balance sp d = spendableAmount acc t d := by
  obtain ⟨sp', hsp', hn, hb⟩ := spendableCoins_spec h (fits_of_spendableCoins h.toWellFormed hsp)
  obtain rfl : sp = sp' := Option.some.inj (hsp.symm.trans hsp')
  exact ⟨hn, hb⟩

/-! ### One bank keeper call -/

/-- The account with other coins, of valid denoms and non-negative amounts, that still cover with
its delegated vesting coins what vests. -/
theorem VestingAccount.Covered.withCoins (h : acc.Covered t) {c : Coins} (hn : NonNeg SdkInt.i c)
    (hd : Coins.DenomsValid c)
    (hcov : ∀ d, Coins.balance acc.originalVesting d - vestedAmount acc t d ≤
      Coins.balance c d + Coins.balance acc.delegatedVesting d) :
    ({ acc with coins := c } : VestingAccount).Covered t where
  coins := hn
  coins_denoms := hd
  originalVesting := h.originalVesting
  originalVesting_denoms := h.originalVesting_denoms
  delegatedFree := h.delegatedFree
  delegatedVesting := h.delegatedVesting
  scheduled := h.scheduled
  covered := hcov

variable (toLower : String → String)

theorem setCoins_eq {c : Coins} (h : setCoins toLower acc c = some acc') :
    acc' = { acc with coins := c } := by
  unfold setCoins at h
  split_ifs at h
  exact (Option.some.inj h).symm

/-- `AddCoins` keeps a covered account covered, when the amount's denoms pass `validateDenom`. -/
theorem VestingAccount.Covered.addCoins (h : acc.Covered t) {amt : Coins} (hd : Coins.DenomsValid amt)
    (hadd : addCoins toLower acc amt = some acc') : acc'.Covered t := by
  simp only [Auth.addCoins, Option.bind_eq_bind] at hadd
  split at hadd
  · cases hadd
  rename_i hnv
  have hv : Coins.isValid toLower amt = true := by simpa using hnv
  have hva : Valid toLower SdkInt.i amt := (isValid_iff SdkInt.amountOps_lawful amt).1 hv
  obtain ⟨c, hc, hset⟩ := Option.bind_eq_some_iff.1 hadd
  split at hset
  · cases hset
  obtain rfl := setCoins_eq toLower hset
  have hcb := Coins.balance_add h.coins.sorted hva.sorted hc
  refine h.withCoins (nonNeg_safeAdd SdkInt.amountOps_lawful h.coins hva.nonNeg hc)
    (fun x hx => ?_) fun d => ?_
  · rcases denom_mem_safeAdd hc hx with ⟨y, hy, hyx⟩ | ⟨y, hy, hyx⟩
    · exact hyx ▸ h.coins_denoms y hy
    · exact hyx ▸ hd y hy
  · -- the coins only grow
    have h0 : 0 ≤ Coins.balance amt d := balance_nonneg hva.nonNeg.nonneg d
    rw [hcb]
    linarith [h.covered d]

/-- `SubtractCoins` keeps a covered account covered: it takes no more than is spendable, which
the coins and delegated vesting coins cover beyond what vests. -/
theorem VestingAccount.Covered.subtractCoins (h : acc.Covered t) {amt : Coins}
    (hsub : subtractCoins toLower acc t amt = some acc') : acc'.Covered t := by
  simp only [Auth.subtractCoins, Option.bind_eq_bind] at hsub
  split at hsub
  · cases hsub
  rename_i hnv
  have hv : Coins.isValid toLower amt = true := by simpa using hnv
  have hva : Valid toLower SdkInt.i amt := (isValid_iff SdkInt.amountOps_lawful amt).1 hv
  obtain ⟨sp, hsp, hsub⟩ := Option.bind_eq_some_iff.1 hsub
  obtain ⟨⟨diff, hasNeg⟩, hdiff, hsub⟩ := Option.bind_eq_some_iff.1 hsub
  cases hasNeg
  case true => cases hsub
  obtain ⟨c, hc, hset⟩ := Option.bind_eq_some_iff.1 hsub
  obtain rfl := setCoins_eq toLower hset
  obtain ⟨hspn, hspb⟩ := spendableCoins_eq h hsp
  -- nothing of the amount exceeds what is spendable
  have hle : ∀ d, Coins.balance amt d ≤ spendableAmount acc t d := fun d => by
    rw [← hspb]
    exact not_lt.1 fun hlt =>
      Bool.false_ne_true ((hasNeg_iff SdkInt.amountOps_lawful hspn.sorted hva.sorted hdiff).2 ⟨d, hlt⟩)
  have hcb := Coins.balance_sub h.coins.sorted hva.sorted hc
  refine h.withCoins (NonNeg.of_balance (Coins.sorted_sub h.coins.sorted hva.sorted hc) fun d => ?_)
    (fun x hx => ?_) fun d => ?_
  · show 0 ≤ Coins.balance c d
    rw [hcb]
    linarith [hle d, (spendableAmount_mem h d).2]
  · obtain ⟨y, hy, hyx⟩ := denom_mem_of_safeSub SdkInt.amountOps_lawful h.coins.sorted hva.nonNeg
      (Coins.sub_eq_some_iff.1 hc) x hx
    exact hyx ▸ h.coins_denoms y hy
  · rw [hcb]
    linarith [hle d, spendableAmount_le_cover acc t d]

/-! ### Delegations and undelegations -/

/-- A part that `TrackDelegation` or `TrackUndelegation` records, followed by the rest of the call:
nothing is recorded where the part is zero, its coin otherwise. -/
theorem bind_part_eq_some {α : Type} {f : Coin → Option Coins} {l : Coins} {denom : String}
    {x : SdkInt} {k : Coins → Option α} {r : α}
    (h : (if (!x.isZero) = true then (newCoin denom x).bind fun a => (f a).bind k
      else (some l).bind k) = some r) :
    ∃ l', (x.i = 0 ∧ l' = l ∨ f ⟨denom, x⟩ = some l') ∧ k l' = some r := by
  split at h
  · obtain ⟨a, ha, h⟩ := Option.bind_eq_some_iff.1 h
    obtain ⟨l', hl', hk⟩ := Option.bind_eq_some_iff.1 h
    rw [newCoin_eq_some ha] at hl'
    exact ⟨l', Or.inr hl', hk⟩
  · rename_i hx
    exact ⟨l, Or.inl ⟨by simpa using hx, rfl⟩, h⟩

/-- A part added to a sorted set, as `TrackDelegation` records it. -/
theorem addPart_spec {α : Type} {l : Coins} (hl : Sorted CoinOf.denom l) {denom : String}
    {x : SdkInt} {k : Coins → Option α} {r : α}
    (h : (if (!x.isZero) = true then (newCoin denom x).bind fun a => (Coins.add l [a]).bind k
      else (some l).bind k) = some r) :
    ∃ l', Sorted CoinOf.denom l' ∧
      (∀ d, Coins.balance l' d = Coins.balance l d + if denom = d then x.i else 0) ∧
      k l' = some r := by
  obtain ⟨l', hl', hk⟩ := bind_part_eq_some h
  have hc : Sorted CoinOf.denom [(⟨denom, x⟩ : Coin)] := List.pairwise_singleton _ _
  rcases hl' with ⟨hx, rfl⟩ | hadd
  · exact ⟨l', hl, fun d => by simp [hx], hk⟩
  · refine ⟨l', Coins.sorted_add hl hc hadd, fun d => ?_, hk⟩
    rw [Coins.balance_add hl hc hadd, Coins.balance_singleton]

/-- A part taken off a sorted set, as `TrackUndelegation` records it. -/
theorem subPart_spec {α : Type} {l : Coins} (hl : Sorted CoinOf.denom l) {denom : String}
    {x : SdkInt} {k : Coins → Option α} {r : α}
    (h : (if (!x.isZero) = true then (newCoin denom x).bind fun a => (Coins.sub l [a]).bind k
      else (some l).bind k) = some r) :
    ∃ l', Sorted CoinOf.denom l' ∧
      (∀ d, Coins.balance l' d = Coins.balance l d - if denom = d then x.i else 0) ∧
      k l' = some r := by
  obtain ⟨l', hl', hk⟩ := bind_part_eq_some h
  have hc : Sorted CoinOf.denom [(⟨denom, x⟩ : Coin)] := List.pairwise_singleton _ _
  rcases hl' with ⟨hx, rfl⟩ | hsub
  · exact ⟨l', hl, fun d => by simp [hx], hk⟩
  · refine ⟨l', Coins.sorted_sub hl hc hsub, fun d => ?_, hk⟩
    rw [Coins.balance_sub hl hc hsub, Coins.balance_singleton]

/-- One coin of `TrackDelegation` that returns: the base coins hold at least its amount, which
leaves the coins, and `X = min(max(V - DV, 0), D)` of it is added to the delegated vesting coins
and the rest to the delegated free coins. -/
theorem trackDelegationCoin_spec {bc V : Coins} {c : Coin} (hbc : Sorted CoinOf.denom bc)
    (hV : Sorted CoinOf.denom V) (hw : acc.WellFormed)
    (h : trackDelegationCoin bc V acc c = some acc') :
    c.amount.i ≤ Coins.balance bc c.denom ∧ ∃ coins dv df x,
      acc' = { acc with coins, delegatedVesting := dv, delegatedFree := df } ∧
      Coins.sub acc.coins [c] = some coins ∧
      x = min (max (Coins.balance V c.denom - Coins.balance acc.delegatedVesting c.denom) 0)
        c.amount.i ∧
      Sorted CoinOf.denom dv ∧ Sorted CoinOf.denom df ∧
      ∀ d, Coins.balance dv d = Coins.balance acc.delegatedVesting d + (if c.denom = d then x else 0) ∧
        Coins.balance df d =
          Coins.balance acc.delegatedFree d + (if c.denom = d then c.amount.i - x else 0) := by
  simp only [trackDelegationCoin, Option.bind_eq_bind, Option.bind_eq_some_iff] at h
  obtain ⟨b, hb, v, hv, w, hw', h⟩ := h
  split at h
  · cases h
  rename_i hcond
  simp only [Option.bind_eq_some_iff] at h
  obtain ⟨s, hs, y, hy, h⟩ := h
  obtain ⟨dv, hdvs, hdv, h⟩ := addPart_spec hw.delegatedVesting.sorted h
  obtain ⟨df, hdfs, hdf, h⟩ := addPart_spec hw.delegatedFree.sorted h
  obtain ⟨coins, hcoins, h⟩ := Option.bind_eq_some_iff.1 h
  obtain rfl := Option.some.inj h
  -- the amounts read are the balances
  have hbi := (Coins.amountOf_eq_balance hbc hb).2
  have hxi : ((s.maxInt SdkInt.zeroInt).minInt c.amount).i =
      min (max (Coins.balance V c.denom - Coins.balance acc.delegatedVesting c.denom) 0)
        c.amount.i := by
    rw [SdkInt.minInt_i, SdkInt.maxInt_i, SdkInt.zeroInt_i, (SdkInt.sub_eq_some.1 hs).1,
      (Coins.amountOf_eq_balance hV hv).2, (Coins.amountOf_eq_balance hw.delegatedVesting.sorted hw').2]
  have hyi := (SdkInt.sub_eq_some.1 hy).1
  refine ⟨?_, coins, dv, df, _, rfl, hcoins, hxi, hdvs, hdfs, fun d => ⟨hdv d, ?_⟩⟩
  · rw [← hbi]
    exact not_lt.1 fun hlt => hcond (by simp [hlt])
  · rw [hdf, hyi]

/-- One coin of `TrackDelegation` keeps a covered account covered, when its coins of the coin's
denom are still the base coins: what leaves the coins beyond `X` was not needed to cover what
vests. It changes neither what vests nor the coins of another denom. -/
theorem VestingAccount.Covered.trackDelegationCoin (h : acc.Covered t) {bc V : Coins} {c : Coin}
    (hbc : Sorted CoinOf.denom bc) (hV : Sorted CoinOf.denom V)
    (hVb : ∀ d, Coins.balance V d = Coins.balance acc.originalVesting d - vestedAmount acc t d)
    (hpos : 0 < c.amount.i) (hbase : Coins.balance acc.coins c.denom = Coins.balance bc c.denom)
    (hstep : trackDelegationCoin bc V acc c = some acc') :
    acc'.Covered t ∧
      (∀ d, Coins.balance acc'.originalVesting d - vestedAmount acc' t d =
        Coins.balance acc.originalVesting d - vestedAmount acc t d) ∧
      ∀ d, d ≠ c.denom → Coins.balance acc'.coins d = Coins.balance acc.coins d := by
  obtain ⟨hle, coins, dv, df, x, rfl, hcoins, hx, hdvs, hdfs, hb⟩ :=
    trackDelegationCoin_spec hbc hV h.toWellFormed hstep
  have hc : NonNeg SdkInt.i [c] := ⟨List.pairwise_singleton _ _, List.forall_mem_singleton.2 hpos.le⟩
  have hcb : ∀ d, Coins.balance coins d =
      Coins.balance acc.coins d - if c.denom = d then c.amount.i else 0 := fun d => by
    rw [Coins.balance_sub h.coins.sorted hc.sorted hcoins, Coins.balance_singleton]
  refine ⟨{ coins := NonNeg.of_balance (Coins.sorted_sub h.coins.sorted hc.sorted hcoins)
              fun d => ?_
            coins_denoms := fun y hy => ?_
            originalVesting := h.originalVesting
            originalVesting_denoms := h.originalVesting_denoms
            delegatedFree := NonNeg.of_balance hdfs fun d => ?_
            delegatedVesting := NonNeg.of_balance hdvs fun d => ?_
            scheduled := h.scheduled
            covered := fun d => ?_ }, fun _ => rfl, fun d hd => ?_⟩
  · show 0 ≤ Coins.balance coins d
    have h0 : 0 ≤ Coins.balance acc.coins d := balance_nonneg h.coins.nonneg d
    rw [hcb]
    split_ifs with hd
    · subst hd
      omega
    · omega
  · obtain ⟨z, hz, hzy⟩ := denom_mem_of_safeSub SdkInt.amountOps_lawful h.coins.sorted hc
      (Coins.sub_eq_some_iff.1 hcoins) y hy
    exact hzy ▸ h.coins_denoms z hz
  · show 0 ≤ Coins.balance df d
    have h0 : 0 ≤ Coins.balance acc.delegatedFree d := balance_nonneg h.delegatedFree.nonneg d
    rw [(hb d).2]
    split_ifs <;> omega
  · show 0 ≤ Coins.balance dv d
    have h0 : 0 ≤ Coins.balance acc.delegatedVesting d := balance_nonneg h.delegatedVesting.nonneg d
    rw [(hb d).1]
    split_ifs <;> omega
  · -- of the coin's denom, `X` makes up what `DV` fell short of, up to the amount
    show Coins.balance acc.originalVesting d - vestedAmount acc t d ≤
      Coins.balance coins d + Coins.balance dv d
    have hcov := h.covered d
    rw [hcb, (hb d).1]
    split_ifs with hd
    · subst hd
      have := hVb c.denom
      omega
    · omega
  · rw [hcb, if_neg fun h' => hd h'.symm, sub_zero]

/-- The loop of `TrackDelegation` over a sorted amount of positive coins keeps a covered account
covered: each coin takes from a denom that no earlier coin touched, whose coins are still the
base coins. -/
theorem foldlM_trackDelegationCoin_covered {bc V : Coins} (hbc : Sorted CoinOf.denom bc)
    (hV : Sorted CoinOf.denom V) :
    ∀ (l : Coins) {acc acc' : VestingAccount}, acc.Covered t →
      (∀ d, Coins.balance V d = Coins.balance acc.originalVesting d - vestedAmount acc t d) →
      Sorted CoinOf.denom l → (∀ c ∈ l, 0 < c.amount.i) →
      (∀ c ∈ l, Coins.balance acc.coins c.denom = Coins.balance bc c.denom) →
      l.foldlM (trackDelegationCoin bc V) acc = some acc' → acc'.Covered t
  | [], _, _, h, _, _, _, _, hf => by
    cases hf
    exact h
  | c :: l, _, _, h, hVb, hs, hpos, hbase, hf => by
    rw [List.foldlM_cons] at hf
    obtain ⟨acc₁, h₁, hrest⟩ := Option.bind_eq_some_iff.1 hf
    obtain ⟨hcov, hvest, hframe⟩ := h.trackDelegationCoin hbc hV hVb (hpos c List.mem_cons_self)
      (hbase c List.mem_cons_self) h₁
    refine foldlM_trackDelegationCoin_covered hbc hV l hcov (fun d => (hVb d).trans (hvest d).symm)
      hs.tail (fun c' hc' => hpos c' (List.mem_cons_of_mem _ hc')) (fun c' hc' => ?_) hrest
    -- a later coin is of a larger denom, which this step left as it was
    rw [hframe _ (hs.key_ne hc')]
    exact hbase c' (List.mem_cons_of_mem _ hc')

/-- One coin of `TrackUndelegation` that returns: its denom passes `validateDenom`, its amount is
added to the coins, and `X = min(DF, D)` of it is taken off the delegated free coins and
`Y = min(DV, D - X)` off the delegated vesting coins. -/
theorem trackUndelegationCoin_spec {c : Coin} (hw : acc.WellFormed)
    (h : trackUndelegationCoin acc c = some acc') :
    DenomValid c.denom ∧ ∃ coins df dv x y,
      acc' = { acc with coins, delegatedFree := df, delegatedVesting := dv } ∧
      Coins.add acc.coins [c] = some coins ∧
      x = min (Coins.balance acc.delegatedFree c.denom) c.amount.i ∧
      y = min (Coins.balance acc.delegatedVesting c.denom) (c.amount.i - x) ∧
      Sorted CoinOf.denom df ∧ Sorted CoinOf.denom dv ∧
      ∀ d, Coins.balance df d = Coins.balance acc.delegatedFree d - (if c.denom = d then x else 0) ∧
        Coins.balance dv d = Coins.balance acc.delegatedVesting d - (if c.denom = d then y else 0) := by
  unfold trackUndelegationCoin at h
  split at h
  · cases h
  simp only [Option.bind_eq_bind, Option.bind_eq_some_iff] at h
  obtain ⟨f, hf, v, hv, r, hr, h⟩ := h
  obtain ⟨df, hdfs, hdf, h⟩ := subPart_spec hw.delegatedFree.sorted h
  obtain ⟨dv, hdvs, hdv, h⟩ := subPart_spec hw.delegatedVesting.sorted h
  obtain ⟨coins, hcoins, h⟩ := Option.bind_eq_some_iff.1 h
  obtain rfl := Option.some.inj h
  obtain ⟨hd, hfi⟩ := Coins.amountOf_eq_balance hw.delegatedFree.sorted hf
  have hxi : (f.minInt c.amount).i = min (Coins.balance acc.delegatedFree c.denom) c.amount.i := by
    rw [SdkInt.minInt_i, hfi]
  have hyi : (v.minInt r).i = min (Coins.balance acc.delegatedVesting c.denom)
      (c.amount.i - (f.minInt c.amount).i) := by
    rw [SdkInt.minInt_i, (Coins.amountOf_eq_balance hw.delegatedVesting.sorted hv).2,
      (SdkInt.sub_eq_some.1 hr).1]
  exact ⟨hd, coins, df, dv, _, _, rfl, hcoins, hxi, hyi, hdfs, hdvs, fun d => ⟨hdf d, hdv d⟩⟩

/-- One coin of `TrackUndelegation` keeps a covered account covered: the coins gain the whole
amount and the delegated vesting coins lose at most that much. -/
theorem VestingAccount.Covered.trackUndelegationCoin (h : acc.Covered t) {c : Coin}
    (hpos : 0 < c.amount.i) (hstep : trackUndelegationCoin acc c = some acc') :
    acc'.Covered t := by
  obtain ⟨hd, coins, df, dv, x, y, rfl, hcoins, hx, hy, hdfs, hdvs, hb⟩ :=
    trackUndelegationCoin_spec h.toWellFormed hstep
  have hc : Sorted CoinOf.denom [c] := List.pairwise_singleton _ _
  have hcb : ∀ d, Coins.balance coins d =
      Coins.balance acc.coins d + if c.denom = d then c.amount.i else 0 := fun d => by
    rw [Coins.balance_add h.coins.sorted hc hcoins, Coins.balance_singleton]
  have hDF : ∀ d, 0 ≤ Coins.balance acc.delegatedFree d := balance_nonneg h.delegatedFree.nonneg
  refine { coins := NonNeg.of_balance (Coins.sorted_add h.coins.sorted hc hcoins) fun d => ?_
           coins_denoms := fun z hz => ?_
           originalVesting := h.originalVesting
           originalVesting_denoms := h.originalVesting_denoms
           delegatedFree := NonNeg.of_balance hdfs fun d => ?_
           delegatedVesting := NonNeg.of_balance hdvs fun d => ?_
           scheduled := h.scheduled
           covered := fun d => ?_ }
  · show 0 ≤ Coins.balance coins d
    have h0 : 0 ≤ Coins.balance acc.coins d := balance_nonneg h.coins.nonneg d
    rw [hcb]
    split_ifs <;> omega
  · rcases denom_mem_safeAdd hcoins hz with ⟨w, hw, hwz⟩ | ⟨w, hw, hwz⟩
    · exact hwz ▸ h.coins_denoms w hw
    · rw [List.mem_singleton] at hw
      subst hw
      exact hwz ▸ hd
  · show 0 ≤ Coins.balance df d
    have h0 := hDF d
    rw [(hb d).1]
    split_ifs with hcd
    · subst hcd
      omega
    · omega
  · show 0 ≤ Coins.balance dv d
    have h0 : 0 ≤ Coins.balance acc.delegatedVesting d :=
      balance_nonneg h.delegatedVesting.nonneg d
    rw [(hb d).2]
    split_ifs with hcd
    · subst hcd
      omega
    · omega
  · -- `Y ≤ D - X ≤ D`, since `X` is not negative
    show Coins.balance acc.originalVesting d - vestedAmount acc t d ≤
      Coins.balance coins d + Coins.balance dv d
    have hcov := h.covered d
    rw [hcb, (hb d).2]
    split_ifs with hcd
    · subst hcd
      have := hDF c.denom
      omega
    · omega

theorem foldlM_trackUndelegationCoin_covered :
    ∀ (l : Coins) {acc acc' : VestingAccount}, acc.Covered t → (∀ c ∈ l, 0 < c.amount.i) →
      l.foldlM trackUndelegationCoin acc = some acc' → acc'.Covered t
  | [], _, _, h, _, hf => by
    cases hf
    exact h
  | c :: l, _, _, h, hpos, hf => by
    rw [List.foldlM_cons] at hf
    obtain ⟨acc₁, h₁, hrest⟩ := Option.bind_eq_some_iff.1 hf
    exact foldlM_trackUndelegationCoin_covered l
      (h.trackUndelegationCoin (hpos c List.mem_cons_self) h₁)
      (fun c' hc' => hpos c' (List.mem_cons_of_mem _ hc')) hrest

/-- `DelegateCoins` keeps a covered account covered. -/
theorem VestingAccount.Covered.delegateCoins (h : acc.Covered t) {amt : Coins}
    (hdel : delegateCoins toLower acc t amt = some acc') : acc'.Covered t := by
  simp only [Auth.delegateCoins, Option.bind_eq_bind] at hdel
  split at hdel
  · cases hdel
  rename_i hnv
  have hv : Coins.isValid toLower amt = true := by simpa using hnv
  have hva : Valid toLower SdkInt.i amt := (isValid_iff SdkInt.amountOps_lawful amt).1 hv
  obtain ⟨⟨diff, hasNeg⟩, -, hdel⟩ := Option.bind_eq_some_iff.1 hdel
  cases hasNeg
  case true => cases hdel
  obtain ⟨V', hV', hfold⟩ := Option.bind_eq_some_iff.1 hdel
  -- the coins still vesting, which the loop reads for every coin
  obtain ⟨V, hV, hVn, hVb⟩ := getVestingCoins_spec h.toWellFormed t
  obtain rfl : V' = V := Option.some.inj (hV'.symm.trans hV)
  exact foldlM_trackDelegationCoin_covered h.coins.sorted hVn.sorted amt h hVb hva.sorted hva.pos
    (fun _ _ => rfl) hfold

/-- `UndelegateCoins` keeps a covered account covered. -/
theorem VestingAccount.Covered.undelegateCoins (h : acc.Covered t) {amt : Coins}
    (hundel : undelegateCoins toLower acc amt = some acc') : acc'.Covered t := by
  unfold Auth.undelegateCoins at hundel
  split at hundel
  · cases hundel
  rename_i hnv
  have hv : Coins.isValid toLower amt = true := by simpa using hnv
  have hva : Valid toLower SdkInt.i amt := (isValid_iff SdkInt.amountOps_lawful amt).1 hv
  exact foldlM_trackUndelegationCoin_covered amt h hva.pos hundel

/-- Every bank keeper call that returns keeps a covered account covered at its block time. -/
theorem VestingAccount.Covered.step (h : acc.Covered t) {op : Op}
    (hd : Coins.DenomsValid op.amount) (hstep : step toLower acc t op = some acc') :
    acc'.Covered t := by
  cases op with
  | subtractCoins amt => exact h.subtractCoins toLower hstep
  | addCoins amt => exact h.addCoins toLower hd hstep
  | delegateCoins amt => exact h.delegateCoins toLower hstep
  | undelegateCoins amt => exact h.undelegateCoins toLower hstep

/-- A covered account stays covered through a run of calls at non-decreasing block times, none
before `t`, with amounts whose denoms pass `validateDenom`, until any time after them. -/
theorem run_covered :
    ∀ (ops : List (Int64 × Op)) {acc : VestingAccount} {t t' : Int64}, acc.Covered t →
      (∀ op ∈ ops, t.toInt ≤ op.1.toInt ∧ op.1.toInt ≤ t'.toInt ∧
        Coins.DenomsValid op.2.amount) →
      ops.Pairwise (fun a b => a.1.toInt ≤ b.1.toInt) → t.toInt ≤ t'.toInt →
      (run toLower acc ops).Covered t'
  | [], _, _, _, h, _, _, htt => h.later htt
  | (τ, op) :: ops, acc, t, t', h, hops, hpw, _ => by
    obtain ⟨htτ, hτt', hd⟩ := hops (τ, op) List.mem_cons_self
    rw [List.pairwise_cons] at hpw
    -- covered at the call's time, the account stays so through the call, returned or not
    have hτ : acc.Covered τ := h.later htτ
    have h₁ : ((step toLower acc τ op).getD acc).Covered τ := by
      cases hs : step toLower acc τ op with
      | none => exact hτ
      | some acc' => exact hτ.step toLower hd hs
    exact run_covered ops h₁
      (fun o ho => ⟨hpw.1 o ho, (hops o (List.mem_cons_of_mem _ ho)).2⟩) hpw.2 hτt'

/-- A vesting account covered at a block time stays covered through every run of the bank
keeper's calls at later, non-decreasing block times with amounts of valid denoms. After them its
`SpendableCoins` returns exactly when its coins and delegated vesting coins add up in range, and
then leaves `min((BC + DV) - V, BC)` spendable of every denom. -/
theorem spendableCoins_after_run (ops : List (Int64 × Op)) {acc : VestingAccount} {t t' : Int64}
    (h : acc.Covered t)
    (hops : ∀ op ∈ ops, t.toInt ≤ op.1.toInt ∧ op.1.toInt ≤ t'.toInt ∧
      Coins.DenomsValid op.2.amount)
    (hpw : ops.Pairwise fun a b => a.1.toInt ≤ b.1.toInt) (htt : t.toInt ≤ t'.toInt) :
    (run toLower acc ops).Covered t' ∧
      ((∃ sp, (run toLower acc ops).spendableCoins t' = some sp) ↔
        Fits (run toLower acc ops).coins (run toLower acc ops).delegatedVesting) ∧
      ∀ sp, (run toLower acc ops).spendableCoins t' = some sp →
        ∀ d, Coins.balance sp d = spendableAmount (run toLower acc ops) t' d := by
  have hc := run_covered toLower ops h hops hpw htt
  refine ⟨hc, ⟨fun ⟨_, hsp⟩ => fits_of_spendableCoins hc.toWellFormed hsp, fun hfit => ?_⟩,
    fun _ hsp => (spendableCoins_eq hc hsp).2⟩
  obtain ⟨sp, hsp, -⟩ := spendableCoins_spec hc hfit
  exact ⟨sp, hsp⟩

/-- A delayed vesting account that holds and vests 100 `stake` until time 10. -/
def hundredVesting : VestingAccount := ⟨hundredStake, hundredStake, [], [], 10, .delayed⟩

theorem hundredVesting_covered : hundredVesting.Covered 0 where
  coins := ⟨List.pairwise_singleton _ _, by decide⟩
  coins_denoms := by decide
  originalVesting := ⟨List.pairwise_singleton _ _, by decide⟩
  originalVesting_denoms := by decide
  delegatedFree := ⟨List.Pairwise.nil, by decide⟩
  delegatedVesting := ⟨List.Pairwise.nil, by decide⟩
  scheduled := trivial
  covered d := by
    have h : ¬(10 : Int64) ≤ 0 := by decide
    simp [vestedAmount, hundredVesting, h]

/-- At time 5 it delegates 40 `stake`, all of it vesting; at time 12, everything vested, it sends
the 60 `stake` it holds. -/
def delegateThenSend : List (Int64 × Op) :=
  [(5, .delegateCoins [⟨"stake", SdkInt.literal 40⟩]),
    (12, .subtractCoins [⟨"stake", SdkInt.literal 60⟩])]

theorem spendableCoins_after_run_hundred :
    hundredVesting.Covered 0 ∧
      (∀ op ∈ delegateThenSend, (0 : Int64).toInt ≤ op.1.toInt ∧ op.1.toInt ≤ (12 : Int64).toInt ∧
        Coins.DenomsValid op.2.amount) ∧
      (delegateThenSend.Pairwise fun a b => a.1.toInt ≤ b.1.toInt) ∧
      (0 : Int64).toInt ≤ (12 : Int64).toInt ∧
      (run id hundredVesting delegateThenSend).Covered 12 ∧
      ((∃ sp, (run id hundredVesting delegateThenSend).spendableCoins 12 = some sp) ↔
        Fits (run id hundredVesting delegateThenSend).coins
          (run id hundredVesting delegateThenSend).delegatedVesting) ∧
      ∀ sp, (run id hundredVesting delegateThenSend).spendableCoins 12 = some sp →
        ∀ d, Coins.balance sp d = spendableAmount (run id hundredVesting delegateThenSend) 12 d :=
  have hops : ∀ op ∈ delegateThenSend, (0 : Int64).toInt ≤ op.1.toInt ∧
      op.1.toInt ≤ (12 : Int64).toInt ∧ Coins.DenomsValid op.2.amount := by decide
  have hpw : delegateThenSend.Pairwise fun a b => a.1.toInt ≤ b.1.toInt := by decide
  have htt : (0 : Int64).toInt ≤ (12 : Int64).toInt := by decide
  ⟨hundredVesting_covered, hops, hpw, htt,
    spendableCoins_after_run id delegateThenSend hundredVesting_covered hops hpw htt⟩

end Covered

end Barkis.Auth
