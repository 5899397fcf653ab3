import Barkis.Staking.Keeper

/-!
# The staking end blocker

`x/staking/keeper/val_state_change.go` and `EndBlocker`: the validator set is recomputed from the
power index, highest key first, up to `MaxValidators` validators of positive power; the
validators it no longer holds begin unbonding, and the pools are settled by one transfer. Then
the validators, unbonding delegations and redelegations whose time has come complete.

The queues are read in the order of their time keys. An error of `CompleteUnbonding` or
`CompleteRedelegation`, which the end blocker skips, is taken to leave the state as it was: the
source keeps the writes made before it, which differs only when the not-bonded pool cannot pay
an unbonding delegation.
-/

namespace Barkis.Staking

open Bank Supply

variable {σ : Type} (hooks : Hooks σ) (toLower : String → String)
  (permAddrs : String → Option PermissionsForAddress) (ctx : Context)

/-! ## The validator queue and the status transitions -/

/-- `InsertValidatorQueue`. -/
def insertValidatorQueue (s : State σ) (addr : ValAddress) (validator : Validator) : State σ :=
  s.modify fun st =>
    { st with
      validatorQueue := st.validatorQueue.insert validator.unbondingCompletionTime
        ((st.validatorQueue.lookup validator.unbondingCompletionTime).getD [] ++ [addr]) }

/-- `DeleteValidatorQueue`: the address leaves the time slice of its completion time, which is
deleted when nothing is left in it. -/
def deleteValidatorQueue (s : State σ) (addr : ValAddress) (validator : Validator) : State σ :=
  let newTimeSlice :=
    ((s.store.validatorQueue.lookup validator.unbondingCompletionTime).getD []).filter (· != addr)
  s.modify fun st =>
    { st with
      validatorQueue :=
        if newTimeSlice.isEmpty then st.validatorQueue.erase validator.unbondingCompletionTime
        else st.validatorQueue.insert validator.unbondingCompletionTime newTimeSlice }

/-- `bondValidator`. -/
def bondValidator (s : State σ) (addr : ValAddress) (validator : Validator) :
    Option (State σ × Validator) := do
  let (s, validator, _) ←
    updateValidator s addr validator fun validator => some ({ validator with status := .bonded }, ())
  let s := deleteValidatorQueue s addr validator
  let s ← hooks.afterValidatorBonded s addr
  pure (s, validator)

/-- `beginUnbondingValidator`: the validator must be bonded, and enters the validator queue at
the end of the unbonding period. -/
def beginUnbondingValidator (s : State σ) (addr : ValAddress) (validator : Validator) :
    Option (State σ × Validator) := do
  let (s, validator, _) ←
    updateValidator s addr validator fun validator =>
      if validator.status ≠ .bonded then none
      else
        some ({ validator with
          status := .unbonding
          unbondingCompletionTime := ctx.time + s.store.params.unbondingTime
          unbondingHeight := ctx.height }, ())
  let s := insertValidatorQueue s addr validator
  let s ← hooks.afterValidatorBeginUnbonding s addr
  pure (s, validator)

/-- `completeUnbondingValidator`. -/
def completeUnbondingValidator (s : State σ) (addr : ValAddress) (validator : Validator) :
    State σ × Validator :=
  let validator := { validator with status := .unbonded }
  (setValidator s addr validator, validator)

/-! ## `ApplyAndReturnValidatorSetUpdates` -/

/-- The state of the loop over the power index: the store, the previous validator set less the
validators seen, the updates, the total power, and the tokens that move to the bonded pool. -/
structure SetUpdate (σ : Type) where
  state : State σ
  last : AList fun _ : ValAddress => Int
  updates : List (ValAddress × Int)
  totalPower : Int
  notBondedToBonded : SdkInt

/-- `SetLastValidatorPower`. -/
def setLastValidatorPower (s : State σ) (addr : ValAddress) (power : Int) : State σ :=
  s.modify fun st => { st with lastValidatorPowers := st.lastValidatorPowers.insert addr power }

/-- `DeleteLastValidatorPower`. -/
def deleteLastValidatorPower (s : State σ) (addr : ValAddress) : State σ :=
  s.modify fun st => { st with lastValidatorPowers := st.lastValidatorPowers.erase addr }

/-- The power index, highest key first. -/
def powerIndexDescending (s : State σ) : List (List UInt8 × ValAddress) :=
  (s.store.validatorsByPower.entries.map fun e => (e.1, e.2)).insertionSort
    fun a b => decide (b.1 ≤ a.1)

/-- The first loop of `ApplyAndReturnValidatorSetUpdates`: it stops after `MaxValidators`
validators or at the first of zero power; a validator not bonded is bonded, and its tokens
counted to move to the bonded pool; a power that differs from the previous set's is written and
returned as an update. -/
def applyValidators (maxValidators : Nat) (count : Nat) (acc : SetUpdate σ) :
    List (List UInt8 × ValAddress) → Option (SetUpdate σ)
  | [] => some acc
  | (_, valAddr) :: rest =>
    if maxValidators ≤ count then some acc
    else do
      let validator ← getValidator acc.state valAddr
      if validator.jailed then none
      else
        let power ← validator.potentialConsensusPower
        if power = 0 then some acc
        else do
          let (s, validator, notBondedToBonded) ←
            match validator.status with
            | .unbonded | .unbonding => do
              let (s, validator) ← bondValidator hooks acc.state valAddr validator
              let notBondedToBonded ← acc.notBondedToBonded.add validator.tokens
              pure (s, validator, notBondedToBonded)
            | .bonded => pure (acc.state, validator, acc.notBondedToBonded)
          let newPower ← validator.consensusPower
          let (s, updates) :=
            if acc.last.lookup valAddr = some newPower then (s, acc.updates)
            else (setLastValidatorPower s valAddr newPower, acc.updates ++ [(valAddr, newPower)])
          applyValidators maxValidators (count + 1)
            ⟨s, acc.last.erase valAddr, updates, acc.totalPower + newPower, notBondedToBonded⟩ rest

/-- The second loop: every validator of the previous set not seen begins unbonding, by address,
and is returned with power zero. Returns the tokens to move to the not-bonded pool. -/
def unbondNoLongerBonded (acc : State σ × List (ValAddress × Int) × SdkInt) :
    List ValAddress → Option (State σ × List (ValAddress × Int) × SdkInt)
  | [] => some acc
  | valAddr :: rest => do
    let validator ← getValidator acc.1 valAddr
    if !validator.isBonded then none
    else
      let (s, validator) ← beginUnbondingValidator hooks ctx acc.1 valAddr validator
      let bondedToNotBonded ← acc.2.2.add validator.tokens
      unbondNoLongerBonded
        (deleteLastValidatorPower s valAddr, acc.2.1 ++ [(valAddr, 0)], bondedToNotBonded) rest

/-- `ApplyAndReturnValidatorSetUpdates`. -/
def applyAndReturnValidatorSetUpdates (s : State σ) : Option (State σ × List (ValAddress × Int)) := do
  let acc ← applyValidators hooks s.store.params.maxValidators 0
    ⟨s, s.store.lastValidatorPowers, [], 0, SdkInt.zeroInt⟩ (powerIndexDescending s)
  let noLongerBonded := acc.last.keys.insertionSort fun a b => decide (a ≤ b)
  let (s, updates, bondedToNotBonded) ←
    unbondNoLongerBonded hooks ctx (acc.state, acc.updates, SdkInt.zeroInt) noLongerBonded
  let s ←
    if bondedToNotBonded.i < acc.notBondedToBonded.i then do
      let amount ← acc.notBondedToBonded.sub bondedToNotBonded
      notBondedTokensToBonded toLower permAddrs ctx.blockTime s amount
    else if acc.notBondedToBonded.i < bondedToNotBonded.i then do
      let amount ← bondedToNotBonded.sub acc.notBondedToBonded
      bondedTokensToNotBonded toLower permAddrs ctx.blockTime s amount
    else some s
  let s := if updates.isEmpty then s else s.modify fun st => { st with lastTotalPower := acc.totalPower }
  pure (s, updates)

/-! ## The maturity queues -/

/-- The time slices of a queue up to the block time, in time order. -/
def matureSlices {α : Type} (queue : AList fun _ : Nat => List α) (time : Nat) : List (Nat × List α) :=
  ((queue.entries.filter fun e => e.1 ≤ time).map fun e => (e.1, e.2)).insertionSort
    fun a b => decide (a.1 ≤ b.1)

/-- `UnbondAllMatureValidatorQueue`: every validator in a mature slice must be unbonding, becomes
unbonded, and is removed when it has no shares left; the slice is deleted. -/
def unbondAllMatureValidatorQueue (s : State σ) : Option (State σ) :=
  (matureSlices s.store.validatorQueue ctx.time).foldlM (fun s slice => do
    let s ← slice.2.foldlM (fun s valAddr => do
      let validator ← getValidator s valAddr
      if !validator.isUnbonding then none
      else
        let (s, validator) := completeUnbondingValidator s valAddr validator
        if validator.delegatorShares.isZero then removeValidator hooks s valAddr else some s) s
    pure (s.modify fun st => { st with validatorQueue := st.validatorQueue.erase slice.1 })) s

/-- `DequeueAllMatureUBDQueue`. -/
def dequeueAllMatureUBDQueue (s : State σ) : State σ × List (AccAddress × ValAddress) :=
  let slices := matureSlices s.store.ubdQueue ctx.time
  (s.modify fun st => { st with ubdQueue := slices.foldl (fun q slice => q.erase slice.1) st.ubdQueue },
    slices.flatMap Prod.snd)

/-- `DequeueAllMatureRedelegationQueue`. -/
def dequeueAllMatureRedelegationQueue (s : State σ) :
    State σ × List (AccAddress × ValAddress × ValAddress) :=
  let slices := matureSlices s.store.redelegationQueue ctx.time
  (s.modify fun st =>
    { st with redelegationQueue := slices.foldl (fun q slice => q.erase slice.1) st.redelegationQueue },
    slices.flatMap Prod.snd)

/-- `EndBlocker`: returns the validator updates. -/
def endBlocker (s : State σ) : Option (State σ × List (ValAddress × Int)) := do
  let (s, validatorUpdates) ← applyAndReturnValidatorSetUpdates hooks toLower permAddrs ctx s
  let s ← unbondAllMatureValidatorQueue hooks ctx s
  let (s, matureUnbonds) := dequeueAllMatureUBDQueue ctx s
  let s := matureUnbonds.foldl
    (fun s dv => (completeUnbonding toLower permAddrs ctx s dv.1 dv.2).getD s) s
  let (s, matureRedelegations) := dequeueAllMatureRedelegationQueue ctx s
  let s := matureRedelegations.foldl
    (fun s dvv => (completeRedelegation ctx s dvv.1 dvv.2.1 dvv.2.2).getD s) s
  pure (s, validatorUpdates)

end Barkis.Staking
