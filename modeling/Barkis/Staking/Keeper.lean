import Barkis.Staking.Types
import Barkis.Supply.Keeper

/-!
# The staking keeper

`x/staking/keeper`: the stores of validators, delegations, unbonding delegations and
redelegations, the power index, the last validator set and the three maturity queues, beside
the bonded and not-bonded pools, which are module accounts of the supply keeper.

The hooks the keeper calls (`StakingHooks`) are a parameter that may write any part of the
state and may panic; the other modules' stores they write are the extension `ext`. A panic is
`none`, and so is an error that the caller turns into a failed message, whose writes the message
cache drops. Store keys are the addresses themselves, which are `sdk.AddrLen` bytes long, so
every prefixed key of the source is a pair or a triple here; the consensus-address index is
left out, and the functions that look a validator up by consensus address take its operator
address. Times are nanoseconds.
-/

namespace Barkis.Staking

open Bank Supply

/-- `types.BondedPoolName`. -/
def bondedPoolName : String := "bonded_tokens_pool"

/-- `types.NotBondedPoolName`. -/
def notBondedPoolName : String := "not_bonded_tokens_pool"

/-- The block header fields the keeper reads: `ctx.BlockHeight()` and `ctx.BlockHeader().Time`. -/
structure Context where
  height : Int
  time : Nat

/-- The block time as the bank keeper reads it for vesting: `ctx.BlockHeader().Time.Unix()`. -/
def Context.blockTime (ctx : Context) : Int64 := Bank.unixSeconds ctx.time

/-- `types.Params`. -/
structure Params where
  unbondingTime : Nat
  maxValidators : Nat
  maxEntries : Nat
  bondDenom : String

/-- The staking keeper's stores. -/
structure Store where
  params : Params
  validators : AList fun _ : ValAddress => Validator
  delegations : AList fun _ : AccAddress × ValAddress => Dec
  unbondingDelegations : AList fun _ : AccAddress × ValAddress => List UnbondingDelegationEntry
  redelegations : AList fun _ : AccAddress × ValAddress × ValAddress => List RedelegationEntry
  validatorsByPower : AList fun _ : List UInt8 => ValAddress
  lastValidatorPowers : AList fun _ : ValAddress => Int
  lastTotalPower : Int
  validatorQueue : AList fun _ : Nat => List ValAddress
  ubdQueue : AList fun _ : Nat => List (AccAddress × ValAddress)
  redelegationQueue : AList fun _ : Nat => List (AccAddress × ValAddress × ValAddress)

/-- The staking stores, the supply keeper's stores, and those of the modules behind the hooks. -/
structure State (σ : Type) where
  store : Store
  supply : Supply.State
  ext : σ

/-- `types.StakingHooks`, with the operator address for the consensus address. -/
structure Hooks (σ : Type) where
  afterValidatorCreated : State σ → ValAddress → Option (State σ)
  beforeValidatorModified : State σ → ValAddress → Option (State σ)
  afterValidatorRemoved : State σ → ValAddress → Option (State σ)
  afterValidatorBonded : State σ → ValAddress → Option (State σ)
  afterValidatorBeginUnbonding : State σ → ValAddress → Option (State σ)
  beforeDelegationCreated : State σ → AccAddress → ValAddress → Option (State σ)
  beforeDelegationSharesModified : State σ → AccAddress → ValAddress → Option (State σ)
  beforeDelegationRemoved : State σ → AccAddress → ValAddress → Option (State σ)
  afterDelegationModified : State σ → AccAddress → ValAddress → Option (State σ)
  beforeValidatorSlashed : State σ → ValAddress → Dec → Option (State σ)

/-- No module listening. -/
def Hooks.none (σ : Type) : Hooks σ :=
  ⟨fun s _ => some s, fun s _ => some s, fun s _ => some s, fun s _ => some s, fun s _ => some s,
    fun s _ _ => some s, fun s _ _ => some s, fun s _ _ => some s, fun s _ _ => some s,
    fun s _ _ => some s⟩

variable {σ : Type}

namespace State

/-- A write to the staking stores. -/
def modify (s : State σ) (f : Store → Store) : State σ := { s with store := f s.store }

@[simp] theorem modify_store (s : State σ) (f : Store → Store) : (s.modify f).store = f s.store := rfl

@[simp] theorem modify_supply (s : State σ) (f : Store → Store) : (s.modify f).supply = s.supply :=
  rfl

@[simp] theorem modify_ext (s : State σ) (f : Store → Store) : (s.modify f).ext = s.ext := rfl

end State

/-! ## Validators and the power index -/

/-- `GetValidator`. -/
def getValidator (s : State σ) (addr : ValAddress) : Option Validator := s.store.validators.lookup addr

/-- `SetValidator`. -/
def setValidator (s : State σ) (addr : ValAddress) (validator : Validator) : State σ :=
  s.modify fun st => { st with validators := st.validators.insert addr validator }

/-- `SetNewValidatorByPowerIndex`. -/
def setNewValidatorByPowerIndex (s : State σ) (addr : ValAddress) (validator : Validator) :
    Option (State σ) :=
  (getValidatorsByPowerIndexKey addr validator).map fun key =>
    s.modify fun st => { st with validatorsByPower := st.validatorsByPower.insert key addr }

/-- `SetValidatorByPowerIndex`: jailed validators are not kept in the power index. -/
def setValidatorByPowerIndex (s : State σ) (addr : ValAddress) (validator : Validator) :
    Option (State σ) :=
  if validator.jailed then some s else setNewValidatorByPowerIndex s addr validator

/-- `DeleteValidatorByPowerIndex`. -/
def deleteValidatorByPowerIndex (s : State σ) (addr : ValAddress) (validator : Validator) :
    Option (State σ) :=
  (getValidatorsByPowerIndexKey addr validator).map fun key =>
    s.modify fun st => { st with validatorsByPower := st.validatorsByPower.erase key }

/-- What the keeper's updates of a stored validator share: the power-index key of the old record
is deleted, the record changed, and it is stored with its new key. -/
def updateValidator {α : Type} (s : State σ) (addr : ValAddress) (validator : Validator)
    (change : Validator → Option (Validator × α)) : Option (State σ × Validator × α) := do
  let s ← deleteValidatorByPowerIndex s addr validator
  let (validator, result) ← change validator
  let s := setValidator s addr validator
  let s ← setValidatorByPowerIndex s addr validator
  pure (s, validator, result)

/-- `AddValidatorTokensAndShares`. -/
def addValidatorTokensAndShares (s : State σ) (addr : ValAddress) (validator : Validator)
    (tokensToAdd : SdkInt) : Option (State σ × Validator × Dec) :=
  updateValidator s addr validator fun validator => validator.addTokensFromDel tokensToAdd

/-- `RemoveValidatorTokensAndShares`. -/
def removeValidatorTokensAndShares (s : State σ) (addr : ValAddress) (validator : Validator)
    (sharesToRemove : Dec) : Option (State σ × Validator × SdkInt) :=
  updateValidator s addr validator fun validator => validator.removeDelShares sharesToRemove

/-- `RemoveValidatorTokens`. -/
def removeValidatorTokens (s : State σ) (addr : ValAddress) (validator : Validator)
    (tokensToRemove : SdkInt) : Option (State σ × Validator × Unit) :=
  updateValidator s addr validator fun validator =>
    (validator.removeTokens tokensToRemove).map fun validator => (validator, ())

/-- `jailValidator`. -/
def jailValidator (s : State σ) (addr : ValAddress) (validator : Validator) : Option (State σ) :=
  if validator.jailed then none
  else
    let validator := { validator with jailed := true }
    deleteValidatorByPowerIndex (setValidator s addr validator) addr validator

/-- `unjailValidator`. -/
def unjailValidator (s : State σ) (addr : ValAddress) (validator : Validator) : Option (State σ) :=
  if !validator.jailed then none
  else
    let validator := { validator with jailed := false }
    setValidatorByPowerIndex (setValidator s addr validator) addr validator

section Hooked

variable (hooks : Hooks σ)

/-- `RemoveValidator`: a missing validator is a no-op; one that is not unbonded or still holds
tokens panics. -/
def removeValidator (s : State σ) (addr : ValAddress) : Option (State σ) :=
  match getValidator s addr with
  | none => some s
  | some validator =>
    if !validator.isUnbonded then none
    else if validator.tokens.isPositive then none
    else do
      let key ← getValidatorsByPowerIndexKey addr validator
      let s := s.modify fun st =>
        { st with
          validators := st.validators.erase addr
          validatorsByPower := st.validatorsByPower.erase key }
      hooks.afterValidatorRemoved s addr

end Hooked

/-! ## The pools -/

section Pools

variable (toLower : String → String) (permAddrs : String → Option PermissionsForAddress)
  (blockTime : Int64)

/-- `sdk.NewCoins(sdk.NewCoin(BondDenom, amount))`: a zero amount gives no coins. -/
def bondCoins (s : State σ) (amount : SdkInt) : Option Coins :=
  (newCoin s.store.params.bondDenom amount).bind fun coin => newCoins toLower [coin]

/-- A transfer of bond-denom tokens from one pool to the other. -/
def transferPoolTokens (s : State σ) (fromPool toPool : String) (tokens : SdkInt) :
    Option (State σ) := do
  let coins ← bondCoins toLower s tokens
  let supply ← sendCoinsFromModuleToModule toLower permAddrs blockTime s.supply fromPool toPool coins
  pure { s with supply }

/-- `bondedTokensToNotBonded`. -/
def bondedTokensToNotBonded (s : State σ) (tokens : SdkInt) : Option (State σ) :=
  transferPoolTokens toLower permAddrs blockTime s bondedPoolName notBondedPoolName tokens

/-- `notBondedTokensToBonded`. -/
def notBondedTokensToBonded (s : State σ) (tokens : SdkInt) : Option (State σ) :=
  transferPoolTokens toLower permAddrs blockTime s notBondedPoolName bondedPoolName tokens

/-- A burn of bond-denom tokens from a pool; nothing is burned unless the amount is positive. -/
def burnPoolTokens (s : State σ) (pool : String) (amt : SdkInt) : Option (State σ) :=
  if !amt.isPositive then some s
  else do
    let coins ← bondCoins toLower s amt
    let supply ← burnCoins toLower permAddrs blockTime s.supply pool coins
    pure { s with supply }

/-- `burnBondedTokens`. -/
def burnBondedTokens (s : State σ) (amt : SdkInt) : Option (State σ) :=
  burnPoolTokens toLower permAddrs blockTime s bondedPoolName amt

/-- `burnNotBondedTokens`. -/
def burnNotBondedTokens (s : State σ) (amt : SdkInt) : Option (State σ) :=
  burnPoolTokens toLower permAddrs blockTime s notBondedPoolName amt

end Pools

/-! ## Delegations, unbonding delegations and redelegations -/

/-- `GetDelegation`: the delegation's shares. -/
def getDelegation (s : State σ) (delAddr : AccAddress) (valAddr : ValAddress) : Option Dec :=
  s.store.delegations.lookup (delAddr, valAddr)

/-- `SetDelegation`. -/
def setDelegation (s : State σ) (delAddr : AccAddress) (valAddr : ValAddress) (shares : Dec) :
    State σ :=
  s.modify fun st => { st with delegations := st.delegations.insert (delAddr, valAddr) shares }

/-- `RemoveDelegation`: the `BeforeDelegationRemoved` hook runs first. -/
def removeDelegation (hooks : Hooks σ) (s : State σ) (delAddr : AccAddress) (valAddr : ValAddress) :
    Option (State σ) :=
  (hooks.beforeDelegationRemoved s delAddr valAddr).map fun s =>
    s.modify fun st => { st with delegations := st.delegations.erase (delAddr, valAddr) }

/-- `GetUnbondingDelegation`: its entries. -/
def getUnbondingDelegation (s : State σ) (delAddr : AccAddress) (valAddr : ValAddress) :
    Option (List UnbondingDelegationEntry) :=
  s.store.unbondingDelegations.lookup (delAddr, valAddr)

/-- `SetUnbondingDelegation`. -/
def setUnbondingDelegation (s : State σ) (delAddr : AccAddress) (valAddr : ValAddress)
    (entries : List UnbondingDelegationEntry) : State σ :=
  s.modify fun st =>
    { st with unbondingDelegations := st.unbondingDelegations.insert (delAddr, valAddr) entries }

/-- `RemoveUnbondingDelegation`. -/
def removeUnbondingDelegation (s : State σ) (delAddr : AccAddress) (valAddr : ValAddress) :
    State σ :=
  s.modify fun st =>
    { st with unbondingDelegations := st.unbondingDelegations.erase (delAddr, valAddr) }

/-- `HasMaxUnbondingDelegationEntries`. -/
def hasMaxUnbondingDelegationEntries (s : State σ) (delAddr : AccAddress) (valAddr : ValAddress) :
    Bool :=
  match getUnbondingDelegation s delAddr valAddr with
  | none => false
  | some entries => decide (s.store.params.maxEntries ≤ entries.length)

/-- `SetUnbondingDelegationEntry`: the entry is appended, or starts a new unbonding delegation. -/
def setUnbondingDelegationEntry (s : State σ) (delAddr : AccAddress) (valAddr : ValAddress)
    (creationHeight : Int) (minTime : Nat) (balance : SdkInt) : State σ :=
  let entry : UnbondingDelegationEntry := ⟨creationHeight, minTime, balance, balance⟩
  setUnbondingDelegation s delAddr valAddr
    ((getUnbondingDelegation s delAddr valAddr).getD [] ++ [entry])

/-- `InsertUBDQueue`. -/
def insertUBDQueue (s : State σ) (delAddr : AccAddress) (valAddr : ValAddress)
    (completionTime : Nat) : State σ :=
  s.modify fun st =>
    { st with
      ubdQueue := st.ubdQueue.insert completionTime
        ((st.ubdQueue.lookup completionTime).getD [] ++ [(delAddr, valAddr)]) }

/-- `GetRedelegation`: its entries. -/
def getRedelegation (s : State σ) (delAddr : AccAddress) (valSrcAddr valDstAddr : ValAddress) :
    Option (List RedelegationEntry) :=
  s.store.redelegations.lookup (delAddr, valSrcAddr, valDstAddr)

/-- `SetRedelegation`. -/
def setRedelegation (s : State σ) (delAddr : AccAddress) (valSrcAddr valDstAddr : ValAddress)
    (entries : List RedelegationEntry) : State σ :=
  s.modify fun st =>
    { st with redelegations := st.redelegations.insert (delAddr, valSrcAddr, valDstAddr) entries }

/-- `RemoveRedelegation`. -/
def removeRedelegation (s : State σ) (delAddr : AccAddress) (valSrcAddr valDstAddr : ValAddress) :
    State σ :=
  s.modify fun st =>
    { st with redelegations := st.redelegations.erase (delAddr, valSrcAddr, valDstAddr) }

/-- `HasReceivingRedelegation`. -/
def hasReceivingRedelegation (s : State σ) (delAddr : AccAddress) (valDstAddr : ValAddress) : Bool :=
  s.store.redelegations.keys.any fun key => key.1 == delAddr && key.2.2 == valDstAddr

/-- `HasMaxRedelegationEntries`. -/
def hasMaxRedelegationEntries (s : State σ) (delAddr : AccAddress)
    (valSrcAddr valDstAddr : ValAddress) : Bool :=
  match getRedelegation s delAddr valSrcAddr valDstAddr with
  | none => false
  | some entries => decide (s.store.params.maxEntries ≤ entries.length)

/-- `SetRedelegationEntry`. -/
def setRedelegationEntry (s : State σ) (delAddr : AccAddress) (valSrcAddr valDstAddr : ValAddress)
    (creationHeight : Int) (minTime : Nat) (balance : SdkInt) (sharesDst : Dec) : State σ :=
  let entry : RedelegationEntry := ⟨creationHeight, minTime, balance, sharesDst⟩
  setRedelegation s delAddr valSrcAddr valDstAddr
    ((getRedelegation s delAddr valSrcAddr valDstAddr).getD [] ++ [entry])

/-- `InsertRedelegationQueue`. -/
def insertRedelegationQueue (s : State σ) (delAddr : AccAddress)
    (valSrcAddr valDstAddr : ValAddress) (completionTime : Nat) : State σ :=
  s.modify fun st =>
    { st with
      redelegationQueue := st.redelegationQueue.insert completionTime
        ((st.redelegationQueue.lookup completionTime).getD [] ++ [(delAddr, valSrcAddr, valDstAddr)]) }

/-! ## Delegating and unbonding -/

section Delegation

variable (hooks : Hooks σ) (toLower : String → String)
  (permAddrs : String → Option PermissionsForAddress) (blockTime : Int64)

/-- `Delegate`: with `subtractAccount` the tokens come from the delegator's account into the
pool of the validator's status; otherwise they are already in the pool of `tokenSrc` and move
to the validator's pool if that differs. Returns the shares issued. -/
def delegate (s : State σ) (delAddr : AccAddress) (bondAmt : SdkInt) (tokenSrc : BondStatus)
    (valAddr : ValAddress) (validator : Validator) (subtractAccount : Bool) :
    Option (State σ × Dec) :=
  if validator.invalidExRate then none
  else do
    let found := getDelegation s delAddr valAddr
    let s ← match found with
      | some _ => hooks.beforeDelegationSharesModified s delAddr valAddr
      | none => hooks.beforeDelegationCreated s delAddr valAddr
    let s ←
      if subtractAccount then
        if tokenSrc = .bonded then none
        else do
          let sendName := if validator.isBonded then bondedPoolName else notBondedPoolName
          let coins ← bondCoins toLower s bondAmt
          let supply ← delegateCoinsFromAccountToModule toLower permAddrs blockTime s.supply delAddr
            sendName coins
          pure { s with supply }
      else
        match tokenSrc == .bonded, validator.isBonded with
        | true, true | false, false => some s
        | false, true => notBondedTokensToBonded toLower permAddrs blockTime s bondAmt
        | true, false => bondedTokensToNotBonded toLower permAddrs blockTime s bondAmt
    let (s, _, newShares) ← addValidatorTokensAndShares s valAddr validator bondAmt
    let shares ← (found.getD Dec.zeroDec).add newShares
    let s := setDelegation s delAddr valAddr shares
    let s ← hooks.afterDelegationModified s delAddr valAddr
    pure (s, newShares)

/-- The self-delegation check of `unbond`: after the operator's own delegation is cut to
`remaining`, an unjailed validator whose operator keeps less than `MinSelfDelegation` is jailed. -/
def jailIfBelowMinSelfDelegation (s : State σ) (delAddr : AccAddress) (valAddr : ValAddress)
    (validator : Validator) (remaining : Dec) : Option (State σ × Validator) :=
  if delAddr = valAddr ∧ validator.jailed = false then do
    let tokens ← (validator.tokensFromShares remaining).bind Dec.truncateInt
    if tokens.i < validator.minSelfDelegation.i then
      let s ← jailValidator s valAddr validator
      let validator ← getValidator s valAddr
      pure (s, validator)
    else pure (s, validator)
  else pure (s, validator)

/-- `unbond`: the shares leave the delegation, which is removed when none are left, and the
validator, which is removed when it is unbonded and has no shares left. Returns the tokens
removed from the validator. -/
def unbond (s : State σ) (delAddr : AccAddress) (valAddr : ValAddress) (shares : Dec) :
    Option (State σ × SdkInt) := do
  let delShares ← getDelegation s delAddr valAddr
  let s ← hooks.beforeDelegationSharesModified s delAddr valAddr
  if delShares < shares then none
  else
    let validator ← getValidator s valAddr
    let delShares ← delShares.sub shares
    let (s, validator) ← jailIfBelowMinSelfDelegation s delAddr valAddr validator delShares
    let s ←
      if delShares.isZero then removeDelegation hooks s delAddr valAddr
      else hooks.afterDelegationModified (setDelegation s delAddr valAddr delShares) delAddr valAddr
    let (s, validator, amount) ← removeValidatorTokensAndShares s valAddr validator shares
    let s ←
      if validator.delegatorShares.isZero && validator.isUnbonded then removeValidator hooks s valAddr
      else some s
    pure (s, amount)

variable (ctx : Context)

/-- `getBeginInfo`: the completion time and height of a redelegation from `valSrcAddr`, and
whether it completes at once. -/
def getBeginInfo (s : State σ) (valSrcAddr : ValAddress) : Nat × Int × Bool :=
  match getValidator s valSrcAddr with
  | none => (ctx.time + s.store.params.unbondingTime, ctx.height, false)
  | some validator =>
    match validator.status with
    | .bonded => (ctx.time + s.store.params.unbondingTime, ctx.height, false)
    | .unbonded => (0, 0, true)
    | .unbonding => (validator.unbondingCompletionTime, validator.unbondingHeight, false)

/-- `Undelegate`: the tokens unbonded go to the not-bonded pool and into a new unbonding entry. -/
def undelegate (s : State σ) (delAddr : AccAddress) (valAddr : ValAddress) (sharesAmount : Dec) :
    Option (State σ × Nat) := do
  let validator ← getValidator s valAddr
  if hasMaxUnbondingDelegationEntries s delAddr valAddr then none
  else
    let (s, returnAmount) ← unbond hooks s delAddr valAddr sharesAmount
    let s ←
      if validator.isBonded then
        bondedTokensToNotBonded toLower permAddrs ctx.blockTime s returnAmount
      else some s
    let completionTime := ctx.time + s.store.params.unbondingTime
    let s := setUnbondingDelegationEntry s delAddr valAddr ctx.height completionTime returnAmount
    let s := insertUBDQueue s delAddr valAddr completionTime
    pure (s, completionTime)

/-- `BeginRedelegation`: the tokens unbonded from the source are delegated to the destination
from the pool of the source's status, and a redelegation entry is made unless the source is
unbonded. -/
def beginRedelegation (s : State σ) (delAddr : AccAddress) (valSrcAddr valDstAddr : ValAddress)
    (sharesAmount : Dec) : Option (State σ × Nat) :=
  if valSrcAddr = valDstAddr then none
  else do
    let dstValidator ← getValidator s valDstAddr
    let srcValidator ← getValidator s valSrcAddr
    if hasReceivingRedelegation s delAddr valSrcAddr then none
    else if hasMaxRedelegationEntries s delAddr valSrcAddr valDstAddr then none
    else
      let (s, returnAmount) ← unbond hooks s delAddr valSrcAddr sharesAmount
      if returnAmount.isZero then none
      else
        let (s, sharesCreated) ←
          delegate hooks toLower permAddrs ctx.blockTime s delAddr returnAmount srcValidator.status
            valDstAddr dstValidator false
        let (completionTime, height, completeNow) := getBeginInfo ctx s valSrcAddr
        if completeNow then pure (s, completionTime)
        else
          let s := setRedelegationEntry s delAddr valSrcAddr valDstAddr height completionTime
            returnAmount sharesCreated
          let s := insertRedelegationQueue s delAddr valSrcAddr valDstAddr completionTime
          pure (s, completionTime)

/-- The loop of `CompleteUnbonding`: a mature entry is dropped, and pays its balance, if any,
from the not-bonded pool back to the delegator. -/
def completeUnbondingEntries (delAddr : AccAddress) (s : State σ) :
    List UnbondingDelegationEntry → Option (State σ × List UnbondingDelegationEntry)
  | [] => some (s, [])
  | entry :: entries =>
    if entry.isMature ctx.time then do
      let s ←
        if entry.balance.isZero then some s
        else do
          let amt ← bondCoins toLower s entry.balance
          let supply ← undelegateCoinsFromModuleToAccount toLower permAddrs s.supply
            notBondedPoolName delAddr amt
          pure { s with supply }
      completeUnbondingEntries delAddr s entries
    else do
      let (s, entries) ← completeUnbondingEntries delAddr s entries
      pure (s, entry :: entries)

/-- `CompleteUnbonding`. -/
def completeUnbonding (s : State σ) (delAddr : AccAddress) (valAddr : ValAddress) :
    Option (State σ) := do
  let entries ← getUnbondingDelegation s delAddr valAddr
  let (s, entries) ← completeUnbondingEntries toLower permAddrs ctx delAddr s entries
  if entries.isEmpty then pure (removeUnbondingDelegation s delAddr valAddr)
  else pure (setUnbondingDelegation s delAddr valAddr entries)

/-- `CompleteRedelegation`: the mature entries are dropped. -/
def completeRedelegation (s : State σ) (delAddr : AccAddress) (valSrcAddr valDstAddr : ValAddress) :
    Option (State σ) := do
  let entries ← getRedelegation s delAddr valSrcAddr valDstAddr
  let entries := entries.filter fun entry => !entry.isMature ctx.time
  if entries.isEmpty then pure (removeRedelegation s delAddr valSrcAddr valDstAddr)
  else pure (setRedelegation s delAddr valSrcAddr valDstAddr entries)

/-- `ValidateUnbondAmount`: the shares worth `amt` tokens, capped at the delegation's shares. -/
def validateUnbondAmount (s : State σ) (delAddr : AccAddress) (valAddr : ValAddress) (amt : SdkInt) :
    Option Dec := do
  let validator ← getValidator s valAddr
  let delShares ← getDelegation s delAddr valAddr
  let shares ← validator.sharesFromTokens amt
  let sharesTruncated ← validator.sharesFromTokensTruncated amt
  if delShares < sharesTruncated then none
  else pure (if delShares < shares then delShares else shares)

end Delegation

end Barkis.Staking
