import Barkis.Staking.Slash
import Barkis.Staking.EndBlock

/-!
# The staking messages and the staking system

`x/staking/handler.go`: the handlers of `MsgCreateValidator`, `MsgEditValidator`, `MsgDelegate`,
`MsgBeginRedelegate` and `MsgUndelegate`. A message is delivered when it passes `ValidateBasic`
and its signers are `sdk.AddrLen` bytes long, as the ante handler's check that each signer is the
address of the key that signed makes them; a failed handler leaves no write.

`Op` is everything that changes the staking stores: the messages, the calls the slashing module
makes (`Slash`, `Jail`, and `MsgUnjail` with the checks it makes on the staking side), and the end
blocker. A validator's description, commission and consensus key are left out.
-/

namespace Barkis.Staking

open Bank Supply

/-- The staking messages. -/
inductive Msg
  | createValidator (delegatorAddress : AccAddress) (validatorAddress : ValAddress) (value : Coin)
      (minSelfDelegation : SdkInt)
  | editValidator (validatorAddress : ValAddress) (minSelfDelegation : Option SdkInt)
  | delegate (delegatorAddress : AccAddress) (validatorAddress : ValAddress) (amount : Coin)
  | beginRedelegate (delegatorAddress : AccAddress) (validatorSrcAddress validatorDstAddress : ValAddress)
      (amount : Coin)
  | undelegate (delegatorAddress : AccAddress) (validatorAddress : ValAddress) (amount : Coin)

namespace Msg

/-- `GetSigners`. -/
def getSigners : Msg → List AccAddress
  | .createValidator delegatorAddress validatorAddress _ _ =>
    if delegatorAddress = validatorAddress then [delegatorAddress]
    else [delegatorAddress, validatorAddress]
  | .editValidator validatorAddress _ => [validatorAddress]
  | .delegate delegatorAddress _ _ => [delegatorAddress]
  | .beginRedelegate delegatorAddress _ _ _ => [delegatorAddress]
  | .undelegate delegatorAddress _ _ => [delegatorAddress]

/-- `ValidateBasic`. -/
def validateBasic : Msg → Bool
  | .createValidator delegatorAddress validatorAddress value minSelfDelegation =>
    !delegatorAddress.isEmpty && !validatorAddress.isEmpty && validatorAddress == delegatorAddress &&
      value.amount.isPositive && minSelfDelegation.isPositive &&
      decide (minSelfDelegation.i ≤ value.amount.i)
  | .editValidator validatorAddress minSelfDelegation =>
    !validatorAddress.isEmpty && (minSelfDelegation.all fun min => min.isPositive)
  | .delegate delegatorAddress validatorAddress amount =>
    !delegatorAddress.isEmpty && !validatorAddress.isEmpty && amount.amount.isPositive
  | .beginRedelegate delegatorAddress validatorSrcAddress validatorDstAddress amount =>
    !delegatorAddress.isEmpty && !validatorSrcAddress.isEmpty && !validatorDstAddress.isEmpty &&
      amount.amount.isPositive
  | .undelegate delegatorAddress validatorAddress amount =>
    !delegatorAddress.isEmpty && !validatorAddress.isEmpty && amount.amount.isPositive

end Msg

variable {σ : Type} (hooks : Hooks σ) (toLower : String → String)
  (permAddrs : String → Option PermissionsForAddress) (ctx : Context)

/-- `handleMsgCreateValidator`: a new unbonded validator, indexed by power, and its operator's
self-delegation. -/
def handleMsgCreateValidator (s : State σ) (delegatorAddress : AccAddress)
    (validatorAddress : ValAddress) (value : Coin) (minSelfDelegation : SdkInt) :
    Option (State σ) :=
  if (getValidator s validatorAddress).isSome then none
  else if value.denom ≠ s.store.params.bondDenom then none
  else do
    let validator := { newValidator with minSelfDelegation }
    let s := setValidator s validatorAddress validator
    let s ← setNewValidatorByPowerIndex s validatorAddress validator
    let s ← hooks.afterValidatorCreated s validatorAddress
    let (s, _) ← delegate hooks toLower permAddrs ctx.blockTime s delegatorAddress value.amount
      .unbonded validatorAddress validator true
    pure s

/-- `handleMsgEditValidator`, without the description and the commission: the minimum
self-delegation can only rise, and not above the validator's tokens. -/
def handleMsgEditValidator (s : State σ) (validatorAddress : ValAddress)
    (minSelfDelegation : Option SdkInt) : Option (State σ) := do
  let validator ← getValidator s validatorAddress
  match minSelfDelegation with
  | none => pure (setValidator s validatorAddress validator)
  | some min =>
    if min.i ≤ validator.minSelfDelegation.i then none
    else if validator.tokens.i < min.i then none
    else pure (setValidator s validatorAddress { validator with minSelfDelegation := min })

/-- `handleMsgDelegate`. -/
def handleMsgDelegate (s : State σ) (delegatorAddress : AccAddress) (validatorAddress : ValAddress)
    (amount : Coin) : Option (State σ) := do
  let validator ← getValidator s validatorAddress
  if amount.denom ≠ s.store.params.bondDenom then none
  else
    let (s, _) ← delegate hooks toLower permAddrs ctx.blockTime s delegatorAddress amount.amount
      .unbonded validatorAddress validator true
    pure s

/-- `handleMsgUndelegate`. -/
def handleMsgUndelegate (s : State σ) (delegatorAddress : AccAddress) (validatorAddress : ValAddress)
    (amount : Coin) : Option (State σ) := do
  let shares ← validateUnbondAmount s delegatorAddress validatorAddress amount.amount
  if amount.denom ≠ s.store.params.bondDenom then none
  else
    let (s, _) ← undelegate hooks toLower permAddrs ctx s delegatorAddress validatorAddress shares
    pure s

/-- `handleMsgBeginRedelegate`. -/
def handleMsgBeginRedelegate (s : State σ) (delegatorAddress : AccAddress)
    (validatorSrcAddress validatorDstAddress : ValAddress) (amount : Coin) : Option (State σ) := do
  let shares ← validateUnbondAmount s delegatorAddress validatorSrcAddress amount.amount
  if amount.denom ≠ s.store.params.bondDenom then none
  else
    let (s, _) ← beginRedelegation hooks toLower permAddrs ctx s delegatorAddress
      validatorSrcAddress validatorDstAddress shares
    pure s

/-- `NewHandler`. -/
def handler (s : State σ) : Msg → Option (State σ)
  | .createValidator delegatorAddress validatorAddress value minSelfDelegation =>
    handleMsgCreateValidator hooks toLower permAddrs ctx s delegatorAddress validatorAddress value
      minSelfDelegation
  | .editValidator validatorAddress minSelfDelegation =>
    handleMsgEditValidator s validatorAddress minSelfDelegation
  | .delegate delegatorAddress validatorAddress amount =>
    handleMsgDelegate hooks toLower permAddrs ctx s delegatorAddress validatorAddress amount
  | .beginRedelegate delegatorAddress validatorSrcAddress validatorDstAddress amount =>
    handleMsgBeginRedelegate hooks toLower permAddrs ctx s delegatorAddress validatorSrcAddress
      validatorDstAddress amount
  | .undelegate delegatorAddress validatorAddress amount =>
    handleMsgUndelegate hooks toLower permAddrs ctx s delegatorAddress validatorAddress amount

/-- `handleMsgUnjail` of the slashing module, with the checks it makes on the staking stores:
the validator has a self-delegation worth at least its minimum and is jailed. The checks on the
signing info (tombstoned, jailed until) are left out, so more unjails are allowed than in the
source. -/
def handleMsgUnjail (s : State σ) (validatorAddr : ValAddress) : Option (State σ) := do
  let validator ← getValidator s validatorAddr
  let selfDel ← getDelegation s validatorAddr validatorAddr
  let tokens ← (validator.tokensFromShares selfDel).bind Dec.truncateInt
  if tokens.i < validator.minSelfDelegation.i then none
  else if !validator.jailed then none
  else unjail s validatorAddr

/-- What changes the staking stores. -/
inductive Op
  | deliver (msg : Msg)
  | slash (valAddr : ValAddress) (infractionHeight : Int) (power : Int64) (slashFactor : Dec)
  | jail (valAddr : ValAddress)
  | unjail (valAddr : ValAddress)
  | endBlock

/-- One step at a block header. -/
def step (s : State σ) : Op → Option (State σ)
  | .deliver msg =>
    if msg.validateBasic && msg.getSigners.all (·.length == addrLen) then
      handler hooks toLower permAddrs ctx s msg
    else none
  | .slash valAddr infractionHeight power slashFactor =>
    slash hooks toLower permAddrs ctx s valAddr infractionHeight power slashFactor
  | .jail valAddr => jail s valAddr
  | .unjail valAddr => handleMsgUnjail s valAddr
  | .endBlock => (endBlocker hooks toLower permAddrs ctx s).map Prod.fst

/-- A run: each step at its header; one that fails or panics leaves the state as it was. -/
def run (s : State σ) (ops : List (Context × Op)) : State σ :=
  ops.foldl (fun s op => (step hooks toLower permAddrs op.1 s op.2).getD s) s

/-! ## A slash that removes the destination of a redelegation -/

/-- The two pools, each with the burner and staking permissions. -/
def poolPerms (name : String) : Option PermissionsForAddress :=
  if name = bondedPoolName then some ⟨[0], [burner, staking]⟩
  else if name = notBondedPoolName then some ⟨[1], [burner, staking]⟩
  else none

/-- `n` tokens, or shares of `n` tokens. -/
def stakeInt (n : Nat) : SdkInt := SdkInt.literal n

/-- The operators of `A` and `B` and a delegator. -/
def operatorA : ValAddress := List.replicate addrLen 1
def operatorB : ValAddress := List.replicate addrLen 2
def delegatorD : AccAddress := List.replicate addrLen 3

/-- Validator `A`, bonded, with a million tokens of its operator and a million of `D`. -/
def validatorA : Validator :=
  ⟨false, .bonded, stakeInt 2000000, Dec.newDecFromInt (stakeInt 2000000), stakeInt 1, 0, 0⟩

/-- A genesis state: `A` is the validator set, its two million tokens are in the bonded pool, and
`B`'s operator holds a million tokens. -/
def redelegationGenesis : State Unit where
  store :=
    { params := ⟨1000, 100, 7, "stake"⟩
      validators := (∅ : AList fun _ : ValAddress => Validator).insert operatorA validatorA
      delegations := ((∅ : AList fun _ : AccAddress × ValAddress => Dec).insert
        (operatorA, operatorA) (Dec.newDecFromInt (stakeInt 1000000))).insert
        (delegatorD, operatorA) (Dec.newDecFromInt (stakeInt 1000000))
      unbondingDelegations := ∅
      redelegations := ∅
      validatorsByPower := match getValidatorsByPowerIndexKey operatorA validatorA with
        | some key => (∅ : AList fun _ : List UInt8 => ValAddress).insert key operatorA
        | none => ∅
      lastValidatorPowers := (∅ : AList fun _ : ValAddress => Int).insert operatorA 2
      lastTotalPower := 2
      validatorQueue := ∅
      ubdQueue := ∅
      redelegationQueue := ∅ }
  supply :=
    ⟨((∅ : Accounts).insert [0] ⟨[⟨"stake", stakeInt 2000000⟩], .module [burner, staking]⟩).insert
      operatorB ⟨[⟨"stake", stakeInt 1000000⟩], .base⟩, [⟨"stake", stakeInt 3000000⟩]⟩
  ext := ()

/-- At height 10: `B` is created with a million tokens; `D` redelegates its million from `A` to
`B`; `B`'s operator undelegates all of its own stake, which jails `B`; `D` undelegates all but
10000 of its shares at `B`; the block ends, and `B`, jailed, stays unbonded. -/
def redelegationSteps : List (Context × Op) :=
  [(⟨10, 100⟩, .deliver (.createValidator operatorB operatorB ⟨"stake", stakeInt 1000000⟩ (stakeInt 1))),
   (⟨10, 100⟩, .deliver (.beginRedelegate delegatorD operatorA operatorB ⟨"stake", stakeInt 1000000⟩)),
   (⟨10, 100⟩, .deliver (.undelegate operatorB operatorB ⟨"stake", stakeInt 1000000⟩)),
   (⟨10, 100⟩, .deliver (.undelegate delegatorD operatorB ⟨"stake", stakeInt 990000⟩)),
   (⟨10, 100⟩, .endBlock)]

/-- The state the steps reach. -/
def redelegationState : State Unit :=
  run (Hooks.none Unit) id poolPerms redelegationGenesis redelegationSteps

/-- Five percent, the usual double-sign slash fraction. -/
def slashFraction : Dec := ⟨5 * 10 ^ 16, Dec.natAbs_lt_of_lt_maxBitLen (by decide)⟩

/-- Every step of the run takes effect: `A` is still bonded, at power 1 after the end blocker;
`B` is jailed and unbonded; `D` has 10000 shares at `B`. At height 11, `A` is slashed five percent
for an infraction at height 10 at its power of 2. The redelegation's entry asks to unbond five
percent of the 1000000 shares it bought at `B`, capped at those 10000 shares; that unbond leaves
`B` unbonded with no shares, so it removes `B`, and `slashRedelegation` then reads `B` back:
`Slash` panics with "destination validator not found". -/
theorem slash_removes_redelegation_destination :
    (getValidator redelegationState operatorA).map Validator.status = some .bonded ∧
      redelegationState.store.lastValidatorPowers.lookup operatorA = some 1 ∧
      (getValidator redelegationState operatorB).map (fun v => (v.jailed, v.status)) =
        some (true, .unbonded) ∧
      (getDelegation redelegationState delegatorD operatorB).map Dec.int = some (10000 * 10 ^ 18) ∧
      ((unbond (Hooks.none Unit) redelegationState delegatorD operatorB
          (Dec.newDecFromInt (stakeInt 10000))).map
        fun r => (getValidator r.1 operatorB).isNone) = some true ∧
      slash (Hooks.none Unit) id poolPerms ⟨11, 200⟩ redelegationState operatorA 10 2
        slashFraction = none := by
  refine ⟨?_, ?_, ?_, ?_, ?_, ?_⟩ <;> decide +kernel

end Barkis.Staking
