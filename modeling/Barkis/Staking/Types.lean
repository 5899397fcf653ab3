import Barkis.Types.DecimalRounding
import Barkis.Types.Coin
import Barkis.Bank.Keeper

/-!
# Staking types

`x/staking/types`: a validator's tokens and the shares its delegators hold in it, the entries of
unbonding delegations and redelegations, and the key of the power index. A validator is stored
under its operator address, which the functions here take beside it; its consensus key,
description and commission are left out.

The exchange rate between tokens and shares is set by the first delegation and moved only by
slashing and by the rounding of `RemoveDelShares`, which leaves the trimmings in the validator.
A panic is `none`, and so is an error that its caller turns into a panic or into the error of a
message.
-/

namespace Barkis.Staking

open Bank

/-- `sdk.ValAddress`: the bytes of an operator address. -/
abbrev ValAddress := List UInt8

/-- `sdk.AddrLen`. -/
def addrLen : Nat := 20

/-- `sdk.BondStatus`. -/
inductive BondStatus
  | unbonded
  | unbonding
  | bonded
  deriving DecidableEq, Repr

/-- `types.Validator`, without its operator address (the key it is stored under), consensus
key, description and commission. -/
structure Validator where
  jailed : Bool
  status : BondStatus
  tokens : SdkInt
  delegatorShares : Dec
  minSelfDelegation : SdkInt
  unbondingHeight : Int
  unbondingCompletionTime : Nat

/-- `NewValidator`: unbonded, with no tokens and no shares, and a minimum self-delegation of
one. -/
def newValidator : Validator :=
  ⟨false, .unbonded, SdkInt.zeroInt, Dec.zeroDec, SdkInt.oneInt, 0, 0⟩

namespace Validator

/-- `Validator.IsBonded`. -/
def isBonded (v : Validator) : Bool := v.status == .bonded

/-- `Validator.IsUnbonded`. -/
def isUnbonded (v : Validator) : Bool := v.status == .unbonded

/-- `Validator.IsUnbonding`. -/
def isUnbonding (v : Validator) : Bool := v.status == .unbonding

/-- `InvalidExRate`: shares are outstanding but every token has been slashed. -/
def invalidExRate (v : Validator) : Bool := v.tokens.isZero && v.delegatorShares.isPositive

/-- `TokensFromShares`. -/
def tokensFromShares (v : Validator) (shares : Dec) : Option Dec :=
  (shares.mulInt v.tokens).bind fun d => d.quo v.delegatorShares

/-- `TokensFromSharesTruncated`. -/
def tokensFromSharesTruncated (v : Validator) (shares : Dec) : Option Dec :=
  (shares.mulInt v.tokens).bind fun d => d.quoTruncate v.delegatorShares

/-- `SharesFromTokens`: an error when the validator has no tokens. -/
def sharesFromTokens (v : Validator) (amt : SdkInt) : Option Dec :=
  if v.tokens.isZero then none
  else (v.delegatorShares.mulInt amt).bind fun d => d.quoInt v.tokens

/-- `SharesFromTokensTruncated`: an error when the validator has no tokens. -/
def sharesFromTokensTruncated (v : Validator) (amt : SdkInt) : Option Dec :=
  if v.tokens.isZero then none
  else (v.delegatorShares.mulInt amt).bind fun d => d.quoTruncate (Dec.newDecFromInt v.tokens)

/-- `AddTokensFromDel`: the first delegation sets the exchange rate to one; the shares issued are
returned with the validator. -/
def addTokensFromDel (v : Validator) (amount : SdkInt) : Option (Validator × Dec) := do
  let issuedShares ←
    if v.delegatorShares.isZero then some (Dec.newDecFromInt amount) else v.sharesFromTokens amount
  let tokens ← v.tokens.add amount
  let delegatorShares ← v.delegatorShares.add issuedShares
  pure ({ v with tokens, delegatorShares }, issuedShares)

/-- `RemoveTokens`: panics on a negative amount or on more than the validator holds. -/
def removeTokens (v : Validator) (tokens : SdkInt) : Option Validator :=
  if tokens.isNegative then none
  else if v.tokens.i < tokens.i then none
  else (v.tokens.sub tokens).map fun tokens => { v with tokens }

/-- `RemoveDelShares`: the last shares take every token left; otherwise the tokens the shares are
worth, truncated, leave. Returns the validator and the tokens removed. -/
def removeDelShares (v : Validator) (delShares : Dec) : Option (Validator × SdkInt) := do
  let remainingShares ← v.delegatorShares.sub delShares
  if remainingShares.isZero then
    pure ({ v with tokens := SdkInt.zeroInt, delegatorShares := remainingShares }, v.tokens)
  else
    let issuedTokens ← (v.tokensFromShares delShares).bind Dec.truncateInt
    let tokens ← v.tokens.sub issuedTokens
    if tokens.isNegative then none
    else pure ({ v with tokens, delegatorShares := remainingShares }, issuedTokens)

end Validator

/-! ## The exchange rate

A validator holds no more tokens than shares counted in units of `10 ^ -18` (`delegatorShares.int`):
then a delegation is issued at least one unit per token, and an unbonding leaves the bound. -/

namespace Validator

open Dec

theorem sharesFromTokens_int {v : Validator} {amt : SdkInt} {r : Dec}
    (h : v.sharesFromTokens amt = some r) :
    v.tokens.i ≠ 0 ∧ r.int = (v.delegatorShares.int * amt.i).tdiv v.tokens.i := by
  unfold sharesFromTokens at h
  split at h
  · cases h
  · obtain ⟨d, hd, hq⟩ := Option.bind_eq_some_iff.1 h
    rw [← mulInt_int hd]
    exact quoInt_int hq

theorem tokensFromShares_int {v : Validator} {shares r : Dec}
    (h : v.tokensFromShares shares = some r) :
    v.delegatorShares.int ≠ 0 ∧ r.int = chopPrecisionAndRound
      ((shares.int * v.tokens.i * precisionReuse * precisionReuse).tdiv v.delegatorShares.int) := by
  obtain ⟨d, hd, hq⟩ := Option.bind_eq_some_iff.1 h
  rw [← mulInt_int hd]
  exact quo_int hq

/-- What `s` shares of `T` tokens backing `S` shares are worth, rounded and then truncated, is at
least `⌊s * T / S⌋` when `s` is not negative. -/
theorem le_truncated_worth {s T S : Int} (hs : 0 ≤ s) (hT : 0 ≤ T) (hS : 0 < S) :
    s * T / S ≤
      (chopPrecisionAndRound ((s * T * precisionReuse * precisionReuse).tdiv S)).tdiv precisionReuse := by
  have hP := precisionReuse_pos
  have hq0 : 0 ≤ s * T * precisionReuse * precisionReuse := by positivity
  set q := (s * T * precisionReuse * precisionReuse).tdiv S with hq
  rw [Int.tdiv_eq_ediv_of_nonneg hq0] at hq
  have hq0' : 0 ≤ q := hq ▸ Int.ediv_nonneg hq0 hS.le
  rw [chopPrecisionAndRound_of_nonneg hq0']
  have hc := chopNonNegAndRound_ge q
  rw [Int.tdiv_eq_ediv_of_nonneg hq0'] at hc
  have hc0 : 0 ≤ chopNonNegAndRound q := le_trans (Int.ediv_nonneg hq0' hP.le) hc
  rw [Int.tdiv_eq_ediv_of_nonneg hc0, Int.le_ediv_iff_mul_le hP]
  refine le_trans ?_ hc
  rw [Int.le_ediv_iff_mul_le hP, hq, Int.le_ediv_iff_mul_le hS]
  have := Int.ediv_mul_le (s * T) hS.ne'
  calc s * T / S * precisionReuse * precisionReuse * S
      = s * T / S * S * (precisionReuse * precisionReuse) := by ring
    _ ≤ s * T * (precisionReuse * precisionReuse) := by gcongr
    _ = s * T * precisionReuse * precisionReuse := by ring

/-- ... and at least `s` when `s` is negative and `T ≤ S`. -/
theorem le_truncated_worth_of_nonpos {s T S : Int} (hs : s ≤ 0) (hT : 0 ≤ T) (hTS : T ≤ S)
    (hS : 0 < S) :
    s ≤ (chopPrecisionAndRound ((s * T * precisionReuse * precisionReuse).tdiv S)).tdiv
      precisionReuse := by
  have hP := precisionReuse_pos
  obtain ⟨x, hx, rfl⟩ : ∃ x, 0 ≤ x ∧ s = -x := ⟨-s, by omega, by omega⟩
  have ha0 : 0 ≤ x * T * precisionReuse * precisionReuse := by positivity
  have hneg : (-x * T * precisionReuse * precisionReuse).tdiv S =
      -((x * T * precisionReuse * precisionReuse) / S) := by
    rw [show -x * T * precisionReuse * precisionReuse = -(x * T * precisionReuse * precisionReuse)
      by ring, Int.neg_tdiv, Int.tdiv_eq_ediv_of_nonneg ha0]
  set q := x * T * precisionReuse * precisionReuse / S with hq
  have hq0 : 0 ≤ q := Int.ediv_nonneg ha0 hS.le
  have hqle : q ≤ x * precisionReuse * precisionReuse := by
    rw [hq]
    apply Int.ediv_le_of_le_mul hS
    calc x * T * precisionReuse * precisionReuse ≤ x * S * precisionReuse * precisionReuse := by
          gcongr
      _ = x * precisionReuse * precisionReuse * S := by ring
  rw [hneg, chopPrecisionAndRound_of_nonpos (by omega), neg_neg]
  have hc := chopNonNegAndRound_le hq0 hqle
  have hc0 : 0 ≤ chopNonNegAndRound q :=
    le_trans (by rw [Int.tdiv_eq_ediv_of_nonneg hq0]; exact Int.ediv_nonneg hq0 hP.le)
      (chopNonNegAndRound_ge q)
  rw [Int.neg_tdiv, Int.tdiv_eq_ediv_of_nonneg hc0, neg_le_neg_iff]
  exact Int.ediv_le_of_le_mul hP (by linarith)

/-- A delegation of a positive amount to a validator with no more tokens than shares issues at
least one share unit per token, and keeps the bound. -/
theorem addTokensFromDel_spec {v v' : Validator} {amount : SdkInt} {issued : Dec}
    (h : v.addTokensFromDel amount = some (v', issued)) (hT : 0 ≤ v.tokens.i)
    (hTS : v.tokens.i ≤ v.delegatorShares.int) (ha : 0 < amount.i) :
    ∃ tokens delegatorShares, v' = { v with tokens, delegatorShares } ∧
      tokens.i = v.tokens.i + amount.i ∧ delegatorShares.int = v.delegatorShares.int + issued.int ∧
      amount.i ≤ issued.int := by
  unfold addTokensFromDel at h
  simp only at h
  -- the shares issued, by the first delegation or at the validator's rate
  split at h
  next hz =>
    obtain ⟨n, hn, h⟩ := Option.bind_eq_some_iff.1 h
    cases hn
    obtain ⟨tokens, ht, h⟩ := Option.bind_eq_some_iff.1 h
    obtain ⟨shares, hs, h⟩ := Option.bind_eq_some_iff.1 h
    cases h
    refine ⟨tokens, shares, rfl, (SdkInt.add_eq_some.1 ht).1, (Dec.add_eq_some.1 hs).1, ?_⟩
    have : 1 ≤ precisionReuse := precisionReuse_pos
    simp only [newDecFromInt_int]
    nlinarith
  next hz =>
    obtain ⟨n, hn, h⟩ := Option.bind_eq_some_iff.1 h
    obtain ⟨tokens, ht, h⟩ := Option.bind_eq_some_iff.1 h
    obtain ⟨shares, hs, h⟩ := Option.bind_eq_some_iff.1 h
    cases h
    refine ⟨tokens, shares, rfl, (SdkInt.add_eq_some.1 ht).1, (Dec.add_eq_some.1 hs).1, ?_⟩
    obtain ⟨hT0, hq⟩ := sharesFromTokens_int hn
    have hTpos : 0 < v.tokens.i := lt_of_le_of_ne hT (Ne.symm hT0)
    rw [hq, Int.tdiv_eq_ediv_of_nonneg (by nlinarith), Int.le_ediv_iff_mul_le hTpos]
    nlinarith

/-- Unbonding at most a validator's shares from a validator with no more tokens than shares keeps
its tokens non-negative and within its shares; shares that are not negative take tokens that are
not negative. -/
theorem removeDelShares_spec {v v' : Validator} {delShares : Dec} {amount : SdkInt}
    (h : v.removeDelShares delShares = some (v', amount)) (hT : 0 ≤ v.tokens.i)
    (hTS : v.tokens.i ≤ v.delegatorShares.int) (hs : delShares.int ≤ v.delegatorShares.int) :
    ∃ tokens delegatorShares, v' = { v with tokens, delegatorShares } ∧
      tokens.i = v.tokens.i - amount.i ∧
      delegatorShares.int = v.delegatorShares.int - delShares.int ∧
      0 ≤ tokens.i ∧ tokens.i ≤ delegatorShares.int ∧ (0 ≤ delShares.int → 0 ≤ amount.i) := by
  unfold removeDelShares at h
  obtain ⟨remaining, hr, h⟩ := Option.bind_eq_some_iff.1 h
  have hr := (Dec.sub_eq_some.1 hr).1
  split at h
  next hz =>
    -- the last shares take every token left
    cases h
    have hz : remaining.int = 0 := by simpa using hz
    exact ⟨SdkInt.zeroInt, remaining, rfl, by simp, hr, by simp, by simp [hz], fun _ => hT⟩
  next hz =>
    obtain ⟨issued, hi, h⟩ := Option.bind_eq_some_iff.1 h
    obtain ⟨tokens, ht, h⟩ := Option.bind_eq_some_iff.1 h
    split at h
    next => cases h
    next hneg =>
      cases h
      have ht := (SdkInt.sub_eq_some.1 ht).1
      obtain ⟨r, hr', hti⟩ := Option.bind_eq_some_iff.1 hi
      obtain ⟨hS0, hrint⟩ := tokensFromShares_int hr'
      have hti := truncateInt_i hti
      rw [hrint] at hti
      have hS : 0 < v.delegatorShares.int := lt_of_le_of_ne (le_trans hT hTS) (Ne.symm hS0)
      refine ⟨tokens, remaining, rfl, ht, hr, by simpa using hneg, ?_, fun hs0 => ?_⟩
      · rcases le_or_gt 0 delShares.int with hs0 | hs0
        · -- the floor of the exact worth is at least what the bound needs
          have hw := le_truncated_worth hs0 hT hS
          have hfl : delShares.int - (v.delegatorShares.int - v.tokens.i) ≤
              delShares.int * v.tokens.i / v.delegatorShares.int := by
            rw [Int.le_ediv_iff_mul_le hS]
            nlinarith
          omega
        · have := le_truncated_worth_of_nonpos hs0.le hT hTS hS
          omega
      · have := le_truncated_worth hs0 hT hS
        have : 0 ≤ delShares.int * v.tokens.i / v.delegatorShares.int :=
          Int.ediv_nonneg (by positivity) hS.le
        omega

/-- The worth of `0 ≤ s ≤ S` of `S > 0` shares backed by `T ≥ 0` tokens, taken at 36 decimals and
rounded to 18, lies between zero and `T` tokens; truncated to whole tokens, it is at most
`s * T / S + 1 / (2 * 10 ^ 18)`. -/
theorem rounded_worth_bounds {s T S : Int} (hs : 0 ≤ s) (hsS : s ≤ S) (hT : 0 ≤ T) (hS : 0 < S) :
    0 ≤ chopNonNegAndRound (s * T * precisionReuse * precisionReuse / S) ∧
      chopNonNegAndRound (s * T * precisionReuse * precisionReuse / S) ≤ T * precisionReuse ∧
      2 * precisionReuse * (chopNonNegAndRound (s * T * precisionReuse * precisionReuse / S) /
        precisionReuse) * S ≤ 2 * precisionReuse * s * T + S := by
  have hP := precisionReuse_pos
  have hn0 : 0 ≤ s * T * precisionReuse * precisionReuse := by positivity
  set q := s * T * precisionReuse * precisionReuse / S with hq
  set c := chopNonNegAndRound q with hc
  have hq0 : 0 ≤ q := Int.ediv_nonneg hn0 hS.le
  have hqS : q * S ≤ s * T * precisionReuse * precisionReuse := Int.ediv_mul_le _ hS.ne'
  have hqT : q ≤ T * precisionReuse * precisionReuse := by
    apply Int.ediv_le_of_le_mul hS
    calc s * T * precisionReuse * precisionReuse
        ≤ S * T * precisionReuse * precisionReuse := by gcongr
      _ = T * precisionReuse * precisionReuse * S := by ring
  have hch : 2 * precisionReuse * c ≤ 2 * q + precisionReuse := chopNonNegAndRound_le_half hq0
  have hiP : c / precisionReuse * precisionReuse ≤ c := Int.ediv_mul_le c hP.ne'
  refine ⟨chopNonNegAndRound_nonneg hq0, chopNonNegAndRound_le hq0 hqT, ?_⟩
  -- `2 P i S ≤ 2 P c S ≤ (2 q + P) S ≤ (2 P s T + S) P`, then divide by `P`
  have h1 : 2 * precisionReuse * (c / precisionReuse) * S * precisionReuse ≤
      2 * precisionReuse * c * S := by
    calc 2 * precisionReuse * (c / precisionReuse) * S * precisionReuse
        = 2 * precisionReuse * S * (c / precisionReuse * precisionReuse) := by ring
      _ ≤ 2 * precisionReuse * S * c := by gcongr
      _ = 2 * precisionReuse * c * S := by ring
  have h2 : 2 * precisionReuse * c * S ≤ (2 * q + precisionReuse) * S :=
    Int.mul_le_mul_of_nonneg_right hch hS.le
  have h3 : (2 * q + precisionReuse) * S ≤ (2 * precisionReuse * s * T + S) * precisionReuse := by
    calc (2 * q + precisionReuse) * S
        = 2 * (q * S) + precisionReuse * S := by ring
      _ ≤ 2 * (s * T * precisionReuse * precisionReuse) + precisionReuse * S := by linarith
      _ = (2 * precisionReuse * s * T + S) * precisionReuse := by ring
  exact Int.le_of_mul_le_mul_right (h1.trans (h2.trans h3)) hP

/-- Unbonding `0 < s < S` of a validator's `S` shares, backed by `T ≥ 0` tokens, succeeds when
`s * T` fits a `Dec`, and issues at most `s * T / S + 1 / (2 * 10 ^ 18)` tokens, never more than
`T`: the worth is rounded to 18 decimals before it is truncated, so it can reach the next token. -/
theorem removeDelShares_bound {v : Validator} {s : Dec} (hs0 : 0 < s.int)
    (hsS : s.int < v.delegatorShares.int) (hT : 0 ≤ v.tokens.i)
    (hfit : (s.int * v.tokens.i).natAbs < 2 ^ (maxBitLen + decimalPrecisionBits)) :
    ∃ v' issued, v.removeDelShares s = some (v', issued) ∧ 0 ≤ issued.i ∧ issued.i ≤ v.tokens.i ∧
      2 * precisionReuse * issued.i * v.delegatorShares.int ≤
        2 * precisionReuse * s.int * v.tokens.i + v.delegatorShares.int ∧
      v'.tokens.i = v.tokens.i - issued.i ∧
      v'.delegatorShares.int = v.delegatorShares.int - s.int := by
  have hP := precisionReuse_pos
  have hS : 0 < v.delegatorShares.int := lt_trans hs0 hsS
  have hrem : (v.delegatorShares.int - s.int).natAbs < 2 ^ (maxBitLen + decimalPrecisionBits) := by
    have := v.delegatorShares.bound
    omega
  -- the worth of `s` at 36 decimals, rounded to 18
  have hn0 : 0 ≤ s.int * v.tokens.i * precisionReuse * precisionReuse := by positivity
  obtain ⟨hc0, hcT, hbound⟩ := rounded_worth_bounds hs0.le hsS.le hT hS
  set c := chopNonNegAndRound
    (s.int * v.tokens.i * precisionReuse * precisionReuse / v.delegatorShares.int) with hc
  have hcfit : c.natAbs < 2 ^ (maxBitLen + decimalPrecisionBits) := by
    set m := v.tokens.i * precisionReuse with hm
    have hle : c.natAbs ≤ m.natAbs := by omega
    refine lt_of_le_of_lt hle ?_
    rw [hm, Int.natAbs_mul, pow_add]
    exact Nat.mul_lt_mul'' v.tokens.bound precisionReuse_lt
  -- then truncated: the tokens issued
  have hi0 : 0 ≤ c / precisionReuse := Int.ediv_nonneg hc0 hP.le
  have hiT : c / precisionReuse ≤ v.tokens.i := Int.ediv_le_of_le_mul hP hcT
  have hifit : (c / precisionReuse).natAbs < 2 ^ maxBitLen := by
    have := v.tokens.bound
    omega
  have htfit : (v.tokens.i - c / precisionReuse).natAbs < 2 ^ maxBitLen := by
    have := v.tokens.bound
    omega
  have hsub : v.delegatorShares.sub s = some ⟨v.delegatorShares.int - s.int, hrem⟩ :=
    Dec.sub_eq_some.2 ⟨rfl, hrem⟩
  have hnz : (⟨v.delegatorShares.int - s.int, hrem⟩ : Dec).isZero = false := by
    simp only [Dec.isZero, beq_eq_false_iff_ne]
    omega
  have hmul : s.mulInt v.tokens = some ⟨s.int * v.tokens.i, hfit⟩ := Dec.checked_eq_some.2 ⟨rfl, hfit⟩
  have hquo : (⟨s.int * v.tokens.i, hfit⟩ : Dec).quo v.delegatorShares = some ⟨c, hcfit⟩ := by
    rw [Dec.quo, Dec.quoRaw, if_neg hS.ne', Option.bind_eq_bind, Option.bind_some]
    change checked (chopPrecisionAndRound
      ((s.int * v.tokens.i * precisionReuse * precisionReuse).tdiv v.delegatorShares.int)) = _
    rw [Int.tdiv_eq_ediv_of_nonneg hn0, chopPrecisionAndRound_of_nonneg (Int.ediv_nonneg hn0 hS.le)]
    exact Dec.checked_eq_some.2 ⟨rfl, hcfit⟩
  have htr : Dec.truncateInt ⟨c, hcfit⟩ = some ⟨c / precisionReuse, hifit⟩ := by
    change SdkInt.checked (c.tdiv precisionReuse) = _
    rw [Int.tdiv_eq_ediv_of_nonneg hc0]
    exact SdkInt.checked_eq_some.2 ⟨rfl, hifit⟩
  have htok : v.tokens.sub ⟨c / precisionReuse, hifit⟩ =
      some ⟨v.tokens.i - c / precisionReuse, htfit⟩ := SdkInt.sub_eq_some.2 ⟨rfl, htfit⟩
  have hneg : (⟨v.tokens.i - c / precisionReuse, htfit⟩ : SdkInt).isNegative = false := by
    simp only [SdkInt.isNegative, decide_eq_false_iff_not, not_lt]
    omega
  refine ⟨{ v with
      tokens := ⟨v.tokens.i - c / precisionReuse, htfit⟩
      delegatorShares := ⟨v.delegatorShares.int - s.int, hrem⟩ },
    ⟨c / precisionReuse, hifit⟩, ?_, hi0, hiT, hbound, rfl, rfl⟩
  simp only [removeDelShares, tokensFromShares, hsub, hnz, hmul, hquo, htr, htok, hneg,
    Option.bind_eq_bind, Option.bind_some, Bool.false_eq_true, if_false, Option.pure_def]

/-- Ten tokens behind ten shares. -/
def tenTokens : Validator :=
  { newValidator with tokens := ⟨10, by decide⟩, delegatorShares :=
    ⟨10 * precisionReuse, Dec.natAbs_lt_of_lt_maxBitLen (by decide)⟩ }

/-- Five shares. -/
def fiveShares : Dec := ⟨5 * precisionReuse, Dec.natAbs_lt_of_lt_maxBitLen (by decide)⟩

theorem removeDelShares_bound_half :
    0 < fiveShares.int ∧ fiveShares.int < tenTokens.delegatorShares.int ∧ 0 ≤ tenTokens.tokens.i ∧
      (fiveShares.int * tenTokens.tokens.i).natAbs < 2 ^ (maxBitLen + decimalPrecisionBits) ∧
      ∃ v' issued, tenTokens.removeDelShares fiveShares = some (v', issued) ∧ 0 ≤ issued.i ∧
        issued.i ≤ tenTokens.tokens.i ∧
        2 * precisionReuse * issued.i * tenTokens.delegatorShares.int ≤
          2 * precisionReuse * fiveShares.int * tenTokens.tokens.i + tenTokens.delegatorShares.int ∧
        v'.tokens.i = tenTokens.tokens.i - issued.i ∧
        v'.delegatorShares.int = tenTokens.delegatorShares.int - fiveShares.int :=
  have h0 : 0 < fiveShares.int := by decide
  have h1 : fiveShares.int < tenTokens.delegatorShares.int := by decide
  have h2 : 0 ≤ tenTokens.tokens.i := by decide
  have h3 : (fiveShares.int * tenTokens.tokens.i).natAbs <
      2 ^ (maxBitLen + decimalPrecisionBits) := Dec.natAbs_lt_of_lt_maxBitLen (by decide)
  ⟨h0, h1, h2, h3, removeDelShares_bound h0 h1 h2 h3⟩

/-- One token behind three shares. -/
def oneTokenThreeShares : Validator :=
  { newValidator with tokens := SdkInt.oneInt, delegatorShares :=
    ⟨3 * precisionReuse, Dec.natAbs_lt_of_lt_maxBitLen (by decide)⟩ }

/-- Unbonding all but `10⁻¹⁸` of the three shares: they are worth `0.99…9` of a token, which is
rounded to `1.0` before it is truncated, so the whole token is paid out and the share left has no
token behind it. -/
theorem removeDelShares_overpays :
    (3 * precisionReuse - 1) * 1 / (3 * precisionReuse) = 0 ∧
      oneTokenThreeShares.removeDelShares ⟨3 * precisionReuse - 1, Dec.natAbs_lt_of_lt_maxBitLen (by decide)⟩ =
        some ({ oneTokenThreeShares with tokens := SdkInt.zeroInt, delegatorShares := smallestDec },
          ⟨1, by decide⟩) :=
  ⟨by decide, rfl⟩

/-- `RemoveTokens` takes a non-negative amount, at most the validator's tokens. -/
theorem removeTokens_spec {v v' : Validator} {tokens : SdkInt} (h : v.removeTokens tokens = some v') :
    ∃ tokens', v' = { v with tokens := tokens' } ∧ tokens'.i = v.tokens.i - tokens.i ∧
      0 ≤ tokens.i ∧ tokens.i ≤ v.tokens.i := by
  unfold removeTokens at h
  split at h
  next => cases h
  next hneg =>
    split at h
    next => cases h
    next hlt =>
      obtain ⟨t, ht, rfl⟩ := Option.map_eq_some_iff.1 h
      exact ⟨t, rfl, (SdkInt.sub_eq_some.1 ht).1, by simpa using hneg, by omega⟩

end Validator

/-- `PowerReduction`: tokens per unit of consensus power. -/
def powerReduction : Int := 10 ^ 6

/-- `TokensToConsensusPower`; `Int64()` panics outside the `int64` range. -/
def tokensToConsensusPower (tokens : SdkInt) : Option Int :=
  let power := tokens.i.tdiv powerReduction
  if -2 ^ 63 ≤ power ∧ power < 2 ^ 63 then some power else none

/-- `TokensFromConsensusPower`, from an `int64` power. -/
def tokensFromConsensusPower (power : Int64) : Option SdkInt :=
  (SdkInt.newInt power).mul ⟨powerReduction, by decide⟩

/-- `PotentialConsensusPower`. -/
def Validator.potentialConsensusPower (v : Validator) : Option Int := tokensToConsensusPower v.tokens

/-- `ConsensusPower`: zero unless bonded. -/
def Validator.consensusPower (v : Validator) : Option Int :=
  if v.isBonded then v.potentialConsensusPower else some 0

/-- `ValidatorsByPowerIndexKey`. -/
def validatorsByPowerIndexKey : UInt8 := 0x23

/-- `binary.BigEndian.PutUint64`. -/
def putUint64 (n : Nat) : List UInt8 := (List.range 8).reverse.map fun i => UInt8.ofNat (n / 256 ^ i)

/-- `GetValidatorsByPowerIndexKey` (`getValidatorPowerRank`): the prefix, the consensus power as
a big-endian `uint64`, and the operator address with every bit inverted, copied into a key of
`1 + 8 + AddrLen` bytes (cut or padded with zeros). -/
def getValidatorsByPowerIndexKey (operator : ValAddress) (v : Validator) : Option (List UInt8) :=
  (tokensToConsensusPower v.tokens).map fun power =>
    validatorsByPowerIndexKey :: putUint64 (power % 2 ^ 64).toNat ++
      (operator.map (~~~ ·) ++ List.replicate addrLen 0).take addrLen

/-- The key reads a validator's tokens only. -/
theorem getValidatorsByPowerIndexKey_congr {a : ValAddress} {v v' : Validator}
    (h : v'.tokens = v.tokens) :
    getValidatorsByPowerIndexKey a v' = getValidatorsByPowerIndexKey a v := by
  simp [getValidatorsByPowerIndexKey, h]

/-- The key of an `AddrLen`-byte operator ends with the operator's inverted bytes. -/
theorem drop_getValidatorsByPowerIndexKey {a : ValAddress} {v : Validator} {key : List UInt8}
    (ha : a.length = addrLen) (h : getValidatorsByPowerIndexKey a v = some key) :
    key.drop 9 = a.map (~~~ ·) := by
  obtain ⟨power, -, rfl⟩ := Option.map_eq_some_iff.1 h
  have h8 : (putUint64 (power % 2 ^ 64).toNat).length = 8 := by simp [putUint64]
  rw [show 9 = 1 + 8 from rfl, ← List.drop_drop, List.drop_one, List.cons_append, List.tail_cons,
    List.drop_left' h8, List.take_left' (by simpa using ha)]

/-- Keys of `AddrLen`-byte operators name their operator. -/
theorem getValidatorsByPowerIndexKey_injective {a a' : ValAddress} {v v' : Validator}
    {key : List UInt8} (ha : a.length = addrLen) (ha' : a'.length = addrLen)
    (h : getValidatorsByPowerIndexKey a v = some key)
    (h' : getValidatorsByPowerIndexKey a' v' = some key) : a = a' := by
  have hmap : a.map (~~~ ·) = a'.map (~~~ ·) := by
    rw [← drop_getValidatorsByPowerIndexKey ha h, ← drop_getValidatorsByPowerIndexKey ha' h']
  simpa [List.map_map, Function.comp_def, UInt8.not_not] using congrArg (List.map (~~~ ·)) hmap

/-- `UnbondingDelegationEntry`. -/
structure UnbondingDelegationEntry where
  creationHeight : Int
  completionTime : Nat
  initialBalance : SdkInt
  balance : SdkInt

/-- `UnbondingDelegationEntry.IsMature`. -/
def UnbondingDelegationEntry.isMature (e : UnbondingDelegationEntry) (currentTime : Nat) : Bool :=
  decide (e.completionTime ≤ currentTime)

/-- `RedelegationEntry`. -/
structure RedelegationEntry where
  creationHeight : Int
  completionTime : Nat
  initialBalance : SdkInt
  sharesDst : Dec

/-- `RedelegationEntry.IsMature`. -/
def RedelegationEntry.isMature (e : RedelegationEntry) (currentTime : Nat) : Bool :=
  decide (e.completionTime ≤ currentTime)

end Barkis.Staking
