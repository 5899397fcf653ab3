import Barkis.Staking.Keeper

/-!
# Slashing a validator

`x/staking/keeper/slash.go`: `Slash` burns `slashFactor` of the stake a validator had at the
infraction height. Unbonding delegations and redelegations made from the validator since then
are slashed first, from the not-bonded pool and, for a redelegation, by unbonding the shares it
bought at the destination; what remains is burned from the validator's own tokens.

Unbonding delegations from a validator are read in the order of their index key, by delegator
address; redelegations from a source, by delegator and destination address.
-/

namespace Barkis.Staking

open Bank Supply

variable {σ : Type} (hooks : Hooks σ) (toLower : String → String)
  (permAddrs : String → Option PermissionsForAddress) (ctx : Context)

/-- `GetUnbondingDelegationsFromValidator`: the delegators and entries. -/
def getUnbondingDelegationsFromValidator (s : State σ) (valAddr : ValAddress) :
    List (AccAddress × List UnbondingDelegationEntry) :=
  ((s.store.unbondingDelegations.entries.filter fun e => e.1.2 == valAddr).map
    fun e => (e.1.1, e.2)).insertionSort fun a b => decide (a.1 ≤ b.1)

/-- `GetRedelegationsFromSrcValidator`: the delegators, destinations and entries. -/
def getRedelegationsFromSrcValidator (s : State σ) (valAddr : ValAddress) :
    List ((AccAddress × ValAddress) × List RedelegationEntry) :=
  ((s.store.redelegations.entries.filter fun e => e.1.2.1 == valAddr).map
    fun e => ((e.1.1, e.1.2.2), e.2)).insertionSort fun a b => decide (a.1.1 ++ a.1.2 ≤ b.1.1 ++ b.1.2)

/-- The loop of `slashUnbondingDelegation` over the entries, with the amount that should be
slashed and the amount burned so far: an entry made at or after the infraction height that is
not mature loses `slashFactor` of its initial balance, at most its balance. -/
def slashUnbondingEntries (infractionHeight : Int) (slashFactor : Dec) (total burned : SdkInt) :
    List UnbondingDelegationEntry → Option (List UnbondingDelegationEntry × SdkInt × SdkInt)
  | [] => some ([], total, burned)
  | entry :: entries =>
    if entry.creationHeight < infractionHeight ∨ entry.isMature ctx.time = true then
      (slashUnbondingEntries infractionHeight slashFactor total burned entries).map
        fun r => (entry :: r.1, r.2)
    else do
      let slashAmount ← (slashFactor.mulInt entry.initialBalance).bind Dec.truncateInt
      let total ← total.add slashAmount
      let unbondingSlashAmount := SdkInt.minInt slashAmount entry.balance
      if unbondingSlashAmount.isZero then
        (slashUnbondingEntries infractionHeight slashFactor total burned entries).map
          fun r => (entry :: r.1, r.2)
      else
        let burned ← burned.add unbondingSlashAmount
        let balance ← entry.balance.sub unbondingSlashAmount
        (slashUnbondingEntries infractionHeight slashFactor total burned entries).map
          fun r => ({ entry with balance } :: r.1, r.2)

/-- `slashUnbondingDelegation`: returns what should have been slashed; what was taken is
burned from the not-bonded pool. -/
def slashUnbondingDelegation (s : State σ) (delAddr : AccAddress) (valAddr : ValAddress)
    (entries : List UnbondingDelegationEntry) (infractionHeight : Int) (slashFactor : Dec) :
    Option (State σ × SdkInt) := do
  let (entries, totalSlashAmount, burnedAmount) ←
    slashUnbondingEntries ctx infractionHeight slashFactor SdkInt.zeroInt SdkInt.zeroInt entries
  let s := setUnbondingDelegation s delAddr valAddr entries
  let s ← burnNotBondedTokens toLower permAddrs ctx.blockTime s burnedAmount
  pure (s, totalSlashAmount)

/-- The loop of `slashRedelegation` over the entries, with the amount that should be slashed and
the amounts to burn from each pool: an entry made at or after the infraction height that is not
mature unbonds `slashFactor` of the shares it bought at the destination, at most the
delegation's shares, and the tokens unbonded are burned from the destination's pool. -/
def slashRedelegationEntries (delAddr : AccAddress) (valDstAddr : ValAddress)
    (infractionHeight : Int) (slashFactor : Dec) :
    State σ × SdkInt × SdkInt × SdkInt → List RedelegationEntry →
      Option (State σ × SdkInt × SdkInt × SdkInt)
  | acc, [] => some acc
  | (s, total, bondedBurned, notBondedBurned), entry :: entries =>
    if entry.creationHeight < infractionHeight ∨ entry.isMature ctx.time = true then
      slashRedelegationEntries delAddr valDstAddr infractionHeight slashFactor
        (s, total, bondedBurned, notBondedBurned) entries
    else do
      let slashAmount ← (slashFactor.mulInt entry.initialBalance).bind Dec.truncateInt
      let total ← total.add slashAmount
      let sharesToUnbond ← slashFactor.mul entry.sharesDst
      if sharesToUnbond.isZero then
        slashRedelegationEntries delAddr valDstAddr infractionHeight slashFactor
          (s, total, bondedBurned, notBondedBurned) entries
      else
        match getDelegation s delAddr valDstAddr with
        | none =>
          slashRedelegationEntries delAddr valDstAddr infractionHeight slashFactor
            (s, total, bondedBurned, notBondedBurned) entries
        | some delShares =>
          let sharesToUnbond := if delShares < sharesToUnbond then delShares else sharesToUnbond
          let (s, tokensToBurn) ← unbond hooks s delAddr valDstAddr sharesToUnbond
          -- the destination can have been removed by the unbond: "destination validator not found"
          let dstValidator ← getValidator s valDstAddr
          if dstValidator.isBonded then do
            let bondedBurned ← bondedBurned.add tokensToBurn
            slashRedelegationEntries delAddr valDstAddr infractionHeight slashFactor
              (s, total, bondedBurned, notBondedBurned) entries
          else do
            let notBondedBurned ← notBondedBurned.add tokensToBurn
            slashRedelegationEntries delAddr valDstAddr infractionHeight slashFactor
              (s, total, bondedBurned, notBondedBurned) entries

/-- `slashRedelegation`: returns what should have been slashed. -/
def slashRedelegation (s : State σ) (delAddr : AccAddress) (valDstAddr : ValAddress)
    (entries : List RedelegationEntry) (infractionHeight : Int) (slashFactor : Dec) :
    Option (State σ × SdkInt) := do
  let (s, totalSlashAmount, bondedBurnedAmount, notBondedBurnedAmount) ←
    slashRedelegationEntries hooks ctx delAddr valDstAddr infractionHeight slashFactor
      (s, SdkInt.zeroInt, SdkInt.zeroInt, SdkInt.zeroInt) entries
  let s ← burnBondedTokens toLower permAddrs ctx.blockTime s bondedBurnedAmount
  let s ← burnNotBondedTokens toLower permAddrs ctx.blockTime s notBondedBurnedAmount
  pure (s, totalSlashAmount)

/-- The loop of `Slash` over the unbonding delegations from the validator: each one's slash
amount, when not zero, comes off the remaining slash amount. -/
def slashUnbondingDelegations (valAddr : ValAddress) (infractionHeight : Int) (slashFactor : Dec) :
    State σ × SdkInt → List (AccAddress × List UnbondingDelegationEntry) →
      Option (State σ × SdkInt)
  | acc, [] => some acc
  | (s, remaining), (delAddr, entries) :: ubds => do
    let (s, amountSlashed) ←
      slashUnbondingDelegation toLower permAddrs ctx s delAddr valAddr entries infractionHeight
        slashFactor
    let remaining ← if amountSlashed.isZero then some remaining else remaining.sub amountSlashed
    slashUnbondingDelegations valAddr infractionHeight slashFactor (s, remaining) ubds

/-- The loop of `Slash` over the redelegations from the validator. -/
def slashRedelegations (infractionHeight : Int) (slashFactor : Dec) :
    State σ × SdkInt → List ((AccAddress × ValAddress) × List RedelegationEntry) →
      Option (State σ × SdkInt)
  | acc, [] => some acc
  | (s, remaining), ((delAddr, valDstAddr), entries) :: reds => do
    let (s, amountSlashed) ←
      slashRedelegation hooks toLower permAddrs ctx s delAddr valDstAddr entries infractionHeight
        slashFactor
    let remaining ← if amountSlashed.isZero then some remaining else remaining.sub amountSlashed
    slashRedelegations infractionHeight slashFactor (s, remaining) reds

/-- `Slash`, for the validator the consensus address maps to. A validator that is not found is
ignored; an unbonded one, a negative factor and a future infraction panic. -/
def slash (s : State σ) (valAddr : ValAddress) (infractionHeight : Int) (power : Int64)
    (slashFactor : Dec) : Option (State σ) :=
  if slashFactor < Dec.zeroDec then none
  else do
    let amount ← tokensFromConsensusPower power
    let slashAmount ← ((Dec.newDecFromInt amount).mul slashFactor).bind Dec.truncateInt
    match getValidator s valAddr with
    | none => some s
    | some validator =>
      if validator.isUnbonded then none
      else do
        let s ← hooks.beforeValidatorModified s valAddr
        let (s, remainingSlashAmount) ←
          if ctx.height < infractionHeight then none
          else if infractionHeight = ctx.height then some (s, slashAmount)
          else do
            let (s, remaining) ←
              slashUnbondingDelegations toLower permAddrs ctx valAddr infractionHeight slashFactor
                (s, slashAmount) (getUnbondingDelegationsFromValidator s valAddr)
            slashRedelegations hooks toLower permAddrs ctx infractionHeight slashFactor
              (s, remaining) (getRedelegationsFromSrcValidator s valAddr)
        let tokensToBurn :=
          SdkInt.maxInt (SdkInt.minInt remainingSlashAmount validator.tokens) SdkInt.zeroInt
        let s ←
          if validator.tokens.isPositive then do
            let effectiveFraction ←
              (Dec.newDecFromInt tokensToBurn).quoRoundUp (Dec.newDecFromInt validator.tokens)
            let effectiveFraction :=
              if Dec.oneDec < effectiveFraction then Dec.oneDec else effectiveFraction
            hooks.beforeValidatorSlashed s valAddr effectiveFraction
          else some s
        let (s, validator, _) ← removeValidatorTokens s valAddr validator tokensToBurn
        if validator.isBonded then burnBondedTokens toLower permAddrs ctx.blockTime s tokensToBurn
        else burnNotBondedTokens toLower permAddrs ctx.blockTime s tokensToBurn

/-- `Jail`, for the validator the consensus address maps to. -/
def jail (s : State σ) (valAddr : ValAddress) : Option (State σ) :=
  (getValidator s valAddr).bind fun validator => jailValidator s valAddr validator

/-- `Unjail`, for the validator the consensus address maps to. -/
def unjail (s : State σ) (valAddr : ValAddress) : Option (State σ) :=
  (getValidator s valAddr).bind fun validator => unjailValidator s valAddr validator

end Barkis.Staking
