import Barkis.Distribution.Allocation

/-!
# Periods and reference counts of the F1 rewards

`x/distribution/keeper` (`validator.go`, `delegation.go`, `hooks.go`, `keeper.go`). Each validator
counts periods: its current period gathers rewards, and ending it stores the cumulative reward
ratio of the period as a historical record. A delegation remembers the period before it started
(`DelegatorStartingInfo`) and a slash the period it ended (`ValidatorSlashEvent`), and each of
them, like the validator for its last ended period, holds a reference to that historical
record. `incrementReferenceCount` and `decrementReferenceCount` keep the count of a record, and
delete it when nothing refers to it.

The staking keeper drives the module through its hooks; what a hook reads of the staking keeper
(the validator's tokens and shares, the delegation's shares) is an argument here. A panic, and an
error that fails the message, is `none`.

`ValidatorCurrentRewards` is one record of rewards and period: the allocation's store holds its
rewards, and `RewardsStore` adds its period under the same key. Periods and heights are `uint64`
counters that grow by one; they are `Nat` here, since a period wraps only after `2 ^ 64` of them
and the current period starts at one, so `period - 1` never wraps either.
-/

namespace Barkis.Distribution

open Bank Supply Staking

/-- `ValidatorHistoricalRewards`; the count is a `uint16` that `incrementReferenceCount` keeps
at most three. -/
structure ValidatorHistoricalRewards where
  cumulativeRewardRatio : DecCoins
  referenceCount : Nat

/-- `DelegatorStartingInfo`. -/
structure DelegatorStartingInfo where
  previousPeriod : Nat
  stake : Dec
  height : Nat

/-- `ValidatorSlashEvent`. -/
structure ValidatorSlashEvent where
  validatorPeriod : Nat
  fraction : Dec

/-- The distribution stores: the allocation's, the periods of the current rewards, the
historical rewards by validator and period, the starting infos by validator and delegator, the
slash events by validator, height and period, and the withdraw addresses. -/
structure RewardsStore extends Store where
  validatorCurrentPeriod : AList fun _ : ValAddress => Nat
  validatorHistoricalRewards : AList fun _ : ValAddress × Nat => ValidatorHistoricalRewards
  delegatorStartingInfos : AList fun _ : ValAddress × AccAddress => DelegatorStartingInfo
  validatorSlashEvents : AList fun _ : ValAddress × Nat × Nat => ValidatorSlashEvent
  delegatorWithdrawAddrs : AList fun _ : AccAddress => AccAddress

/-- The distribution stores and the supply keeper's. -/
structure RewardsState where
  store : RewardsStore
  supply : Supply.State

namespace RewardsStore

/-- `GetDelegatorWithdrawAddr`: the delegator itself when none is set. -/
def getDelegatorWithdrawAddr (st : RewardsStore) (delAddr : AccAddress) : AccAddress :=
  (st.delegatorWithdrawAddrs.lookup delAddr).getD delAddr

/-- `GetValidatorHistoricalReferenceCount`: the counts of all historical records. -/
def getValidatorHistoricalReferenceCount (st : RewardsStore) : Nat :=
  (st.validatorHistoricalRewards.entries.map fun e => e.2.referenceCount).sum

/-- The keys of the records of `val` in a store keyed by validator first. -/
def keysOf {κ β : Type} (m : AList fun _ : ValAddress × κ => β) (val : ValAddress) :
    List (ValAddress × κ) :=
  m.keys.filter fun key => key.1 = val

/-- The loop of `DeleteValidatorHistoricalRewards` and `DeleteValidatorSlashEvents`: every key
under the validator's prefix is deleted. -/
def deletePrefix {κ β : Type} [DecidableEq κ] (m : AList fun _ : ValAddress × κ => β)
    (val : ValAddress) : AList fun _ : ValAddress × κ => β :=
  (keysOf m val).foldl (fun m key => m.erase key) m

theorem lookup_deletePrefix {κ β : Type} [DecidableEq κ] (m : AList fun _ : ValAddress × κ => β)
    (val : ValAddress) (key : ValAddress × κ) :
    (deletePrefix m val).lookup key = if key.1 = val then none else m.lookup key := by
  rw [deletePrefix, Ledger.lookup_foldl_erase]
  have hmem : key ∈ keysOf m val ↔ key ∈ m ∧ key.1 = val := by
    simp [keysOf, AList.mem_keys]
  by_cases hk : key.1 = val
  · rw [if_pos hk]
    split_ifs with hin
    · rfl
    · exact AList.lookup_eq_none.2 fun hm => hin (hmem.2 ⟨hm, hk⟩)
  · rw [if_neg hk, if_neg fun hin => hk (hmem.1 hin).2]

end RewardsStore

variable (toLower : String → String) (permAddrs : String → Option PermissionsForAddress)
  (blockTime : Int64)

/-! ## Periods -/

section Periods

variable (st : RewardsStore) (val : ValAddress)

/-- `initializeValidator`: period `0` is stored with one reference, the current period is `1`. -/
def initializeValidator : RewardsStore :=
  { st with
    validatorHistoricalRewards := st.validatorHistoricalRewards.insert (val, 0) ⟨[], 1⟩
    validatorCurrentRewards := st.validatorCurrentRewards.insert val []
    validatorCurrentPeriod := st.validatorCurrentPeriod.insert val 1
    validatorAccumulatedCommission := st.validatorAccumulatedCommission.insert val []
    validatorOutstandingRewards := st.validatorOutstandingRewards.insert val [] }

/-- `incrementReferenceCount`: a missing record panics, and so does a count past two. -/
def incrementReferenceCount (period : Nat) : Option RewardsStore := do
  let historical ← st.validatorHistoricalRewards.lookup (val, period)
  if 2 < historical.referenceCount then none
  else
    pure { st with
      validatorHistoricalRewards := st.validatorHistoricalRewards.insert (val, period)
        { historical with referenceCount := historical.referenceCount + 1 } }

/-- `decrementReferenceCount`: the record is deleted when no reference is left. -/
def decrementReferenceCount (period : Nat) : Option RewardsStore := do
  let historical ← st.validatorHistoricalRewards.lookup (val, period)
  if historical.referenceCount = 0 then none
  else
    let referenceCount := historical.referenceCount - 1
    if referenceCount = 0 then
      pure { st with
        validatorHistoricalRewards := st.validatorHistoricalRewards.erase (val, period) }
    else
      pure { st with
        validatorHistoricalRewards := st.validatorHistoricalRewards.insert (val, period)
          { historical with referenceCount } }

/-- The ratio of the current rewards to `tokens` in `incrementValidatorPeriod`; a validator with
no tokens has none, and its rewards go to the community pool instead. -/
def currentRatio (rewards : DecCoins) (tokens : SdkInt) : Option (RewardsStore × DecCoins) :=
  if tokens.isZero then do
    let communityPool ← DecCoins.add st.communityPool rewards
    let outstanding ← st.validatorOutstandingRewards.lookup val
    let outstanding ← DecCoins.sub outstanding rewards
    pure ({ st with
      communityPool
      validatorOutstandingRewards := st.validatorOutstandingRewards.insert val outstanding }, [])
  else do
    let current ← DecCoins.quoDecTruncate rewards (Dec.newDecFromInt tokens)
    pure (st, current)

/-- `incrementValidatorPeriod` of a validator with `tokens`: the current period is stored with
one reference, the reference to the period before it is released, and the period it ended is
returned. -/
def incrementValidatorPeriod (tokens : SdkInt) : Option (RewardsStore × Nat) := do
  let rewards ← st.validatorCurrentRewards.lookup val
  let period ← st.validatorCurrentPeriod.lookup val
  let (st, current) ← currentRatio st val rewards tokens
  let historical ← st.validatorHistoricalRewards.lookup (val, period - 1)
  let st ← decrementReferenceCount st val (period - 1)
  let cumulativeRewardRatio ← DecCoins.add historical.cumulativeRewardRatio current
  pure ({ st with
    validatorHistoricalRewards := st.validatorHistoricalRewards.insert (val, period)
      ⟨cumulativeRewardRatio, 1⟩
    validatorCurrentRewards := st.validatorCurrentRewards.insert val []
    validatorCurrentPeriod := st.validatorCurrentPeriod.insert val (period + 1) }, period)

/-- `updateValidatorSlashFraction` at block `height`: the period is ended, and the slash event
refers to it. -/
def updateValidatorSlashFraction (tokens : SdkInt) (height : Nat) (fraction : Dec) :
    Option RewardsStore :=
  if Dec.oneDec < fraction ∨ fraction < Dec.zeroDec then none
  else do
    let (st, newPeriod) ← incrementValidatorPeriod st val tokens
    let st ← incrementReferenceCount st val newPeriod
    pure { st with
      validatorSlashEvents :=
        st.validatorSlashEvents.insert (val, height, newPeriod) ⟨newPeriod, fraction⟩ }

end Periods

/-! ## Delegations -/

section Delegations

variable (st : RewardsStore) (val : ValAddress) (validator : Staking.Validator)

/-- `initializeDelegation` at block `height`, of a delegation with `shares`: it refers to the
period the last increment ended. -/
def initializeDelegation (del : AccAddress) (shares : Dec) (height : Nat) :
    Option RewardsStore := do
  let period ← st.validatorCurrentPeriod.lookup val
  let previousPeriod := period - 1
  let st ← incrementReferenceCount st val previousPeriod
  let stake ← validator.tokensFromSharesTruncated shares
  pure { st with
    delegatorStartingInfos :=
      st.delegatorStartingInfos.insert (val, del) ⟨previousPeriod, stake, height⟩ }

/-- `calculateDelegationRewardsBetween`. -/
def calculateDelegationRewardsBetween (startingPeriod endingPeriod : Nat) (stake : Dec) :
    Option DecCoins :=
  if endingPeriod < startingPeriod then none
  else if stake < Dec.zeroDec then none
  else do
    let starting ← st.validatorHistoricalRewards.lookup (val, startingPeriod)
    let ending ← st.validatorHistoricalRewards.lookup (val, endingPeriod)
    let difference ← DecCoins.sub ending.cumulativeRewardRatio starting.cumulativeRewardRatio
    if DecCoins.isAnyNegative difference then none
    else DecCoins.mulDecTruncate difference stake

/-- `IterateValidatorSlashEventsBetween`: the slash events of `val` at heights from
`startingHeight` to `endingHeight`, in the store's order of height, then period. -/
def slashEventsBetween (startingHeight endingHeight : Nat) :
    List ((Nat × Nat) × ValidatorSlashEvent) :=
  ((st.validatorSlashEvents.entries.filter fun e =>
      e.1.1 = val ∧ startingHeight ≤ e.1.2.1 ∧ e.1.2.1 ≤ endingHeight).map
    fun e => (e.1.2, e.2)).insertionSort
    fun a b => a.1.1 < b.1.1 ∨ (a.1.1 = b.1.1 ∧ a.1.2 ≤ b.1.2)

/-- One slash event of the loop of `calculateDelegationRewards`: the rewards up to its period at
the stake before it, then the stake it leaves. -/
def slashStep (acc : DecCoins × Nat × Dec) (event : ValidatorSlashEvent) :
    Option (DecCoins × Nat × Dec) :=
  let (rewards, startingPeriod, stake) := acc
  let endingPeriod := event.validatorPeriod
  if startingPeriod < endingPeriod then do
    let between ← calculateDelegationRewardsBetween st val startingPeriod endingPeriod stake
    let rewards ← DecCoins.add rewards between
    let stake ← stake.mulTruncate (← Dec.oneDec.sub event.fraction)
    pure (rewards, endingPeriod, stake)
  else pure acc

/-- `calculateDelegationRewards` at block `height` up to `endingPeriod`: the periods between
slashes at the stake each leaves, with the final stake checked against the current one. -/
def calculateDelegationRewards (del : AccAddress) (shares : Dec) (height endingPeriod : Nat) :
    Option DecCoins := do
  let startingInfo ← st.delegatorStartingInfos.lookup (val, del)
  -- started this height, no rewards yet
  if startingInfo.height = height then pure []
  else
    let acc := ([], startingInfo.previousPeriod, startingInfo.stake)
    let (rewards, startingPeriod, stake) ←
      if startingInfo.height < height then
        (slashEventsBetween st val startingInfo.height height).foldlM
          (fun acc event => slashStep st val acc event.2) acc
      else pure acc
    let currentStake ← validator.tokensFromShares shares
    let stake ←
      if currentStake < stake then do
        -- a rounding error of up to three units is corrected
        let marginOfErr ← Dec.smallestDec.mulInt64 3
        if stake ≤ (← currentStake.add marginOfErr) then pure currentStake else none
      else pure stake
    DecCoins.add rewards (← calculateDelegationRewardsBetween st val startingPeriod endingPeriod stake)

end Delegations

/-- What each withdrawal does with the integral coins: unless they are zero, the module account
sends them to the withdraw address of `addr`. -/
def sendToWithdrawAddr (st : RewardsStore) (supply : Supply.State) (addr : AccAddress)
    (coins : Coins) : Option Supply.State :=
  if Coins.isZero coins then pure supply
  else
    sendCoinsFromModuleToAccount toLower permAddrs blockTime supply moduleName
      (st.getDelegatorWithdrawAddr addr) coins

/-- `withdrawDelegationRewards` at block `height`: the period is ended, the rewards are paid to
the withdraw address, their change goes to the community pool, and the delegation's reference
and starting info are dropped. The log line on a rounding mismatch is left out. -/
def withdrawDelegationRewards (s : RewardsState) (val : ValAddress) (validator : Staking.Validator)
    (del : AccAddress) (shares : Dec) (height : Nat) : Option (RewardsState × Coins) := do
  -- `ErrNoDelegationDistInfo`
  if (s.store.delegatorStartingInfos.lookup (val, del)).isNone then none
  let (st, endingPeriod) ← incrementValidatorPeriod s.store val validator.tokens
  let rewardsRaw ← calculateDelegationRewards st val validator del shares height endingPeriod
  let outstanding ← st.validatorOutstandingRewards.lookup val
  let rewards ← DecCoins.intersect rewardsRaw outstanding
  let (coins, remainder) ← DecCoins.truncateDecimal rewards
  let supply ← sendToWithdrawAddr toLower permAddrs blockTime st s.supply del coins
  let outstanding ← DecCoins.sub outstanding rewards
  let communityPool ← DecCoins.add st.communityPool remainder
  let st := { st with
    validatorOutstandingRewards := st.validatorOutstandingRewards.insert val outstanding
    communityPool }
  let startingInfo ← st.delegatorStartingInfos.lookup (val, del)
  let st ← decrementReferenceCount st val startingInfo.previousPeriod
  pure (⟨{ st with delegatorStartingInfos := st.delegatorStartingInfos.erase (val, del) }, supply⟩,
    coins)

/-- The commission of `AfterValidatorRemoved`: taken out of the outstanding rewards, its integral
part paid to the validator's withdraw address and its change to the community pool. -/
def withdrawRemovedCommission (s : RewardsState) (val : ValAddress) (outstanding : DecCoins) :
    Option (RewardsState × DecCoins) := do
  let commission := (s.store.validatorAccumulatedCommission.lookup val).getD []
  if DecCoins.isZero commission then pure (s, outstanding)
  else
    let outstanding ← DecCoins.sub outstanding commission
    let (coins, remainder) ← DecCoins.truncateDecimal commission
    let communityPool ← DecCoins.add s.store.communityPool remainder
    let st := { s.store with communityPool }
    let supply ← sendToWithdrawAddr toLower permAddrs blockTime st s.supply val coins
    pure (⟨st, supply⟩, outstanding)

/-- `Hooks.AfterValidatorRemoved`: the commission is paid out, the outstanding rewards go to the
community pool, and every record of the validator is deleted. Addresses have the one length
`AddrLen`, so the validator's key prefix holds its own records only. -/
def afterValidatorRemoved (s : RewardsState) (val : ValAddress) : Option RewardsState := do
  let outstanding ← s.store.validatorOutstandingRewards.lookup val
  let (s, outstanding) ← withdrawRemovedCommission toLower permAddrs blockTime s val outstanding
  let communityPool ← DecCoins.add s.store.communityPool outstanding
  let st := s.store
  pure ⟨{ st with
    communityPool
    validatorOutstandingRewards := st.validatorOutstandingRewards.erase val
    validatorAccumulatedCommission := st.validatorAccumulatedCommission.erase val
    validatorSlashEvents := RewardsStore.deletePrefix st.validatorSlashEvents val
    validatorHistoricalRewards := RewardsStore.deletePrefix st.validatorHistoricalRewards val
    validatorCurrentRewards := st.validatorCurrentRewards.erase val
    validatorCurrentPeriod := st.validatorCurrentPeriod.erase val }, s.supply⟩

/-- `WithdrawDelegationRewards` (`MsgWithdrawDelegatorReward`): the staking keeper must know the
validator and the delegation; after the withdrawal the delegation starts again. -/
def withdrawDelegatorReward (s : RewardsState) (val : ValAddress)
    (validator : Option Staking.Validator) (del : AccAddress) (shares : Option Dec)
    (height : Nat) : Option (RewardsState × Coins) := do
  -- `ErrNoValidatorDistInfo`, `ErrNoDelegationDistInfo`
  let some validator := validator | none
  let some shares := shares | none
  let (s, rewards) ← withdrawDelegationRewards toLower permAddrs blockTime s val validator del shares height
  let st ← initializeDelegation s.store val validator del shares height
  pure (⟨st, s.supply⟩, rewards)

/-- `WithdrawValidatorCommission`: the integral part of the commission is paid out, its change
stays; an empty commission is stored as the initial one. -/
def withdrawValidatorCommission (s : RewardsState) (val : ValAddress) :
    Option (RewardsState × Coins) := do
  let accumCommission := (s.store.validatorAccumulatedCommission.lookup val).getD []
  -- `ErrNoValidatorCommission`
  if DecCoins.isZero accumCommission then none
  let (commission, remainder) ← DecCoins.truncateDecimal accumCommission
  let remainder := if DecCoins.isZero remainder then [] else remainder
  let outstanding ← s.store.validatorOutstandingRewards.lookup val
  let outstanding ← DecCoins.sub outstanding (← newDecCoins toLower commission)
  let st := { s.store with
    validatorAccumulatedCommission := s.store.validatorAccumulatedCommission.insert val remainder
    validatorOutstandingRewards := s.store.validatorOutstandingRewards.insert val outstanding }
  let supply ← sendToWithdrawAddr toLower permAddrs blockTime st s.supply val commission
  pure (⟨st, supply⟩, commission)

/-! ## What each function writes -/

namespace RewardsStore

/-- The four stores the reference counts live in are those of `st`. -/
structure SameRefs (st' st : RewardsStore) : Prop where
  historical : st'.validatorHistoricalRewards = st.validatorHistoricalRewards
  currentPeriod : st'.validatorCurrentPeriod = st.validatorCurrentPeriod
  startingInfos : st'.delegatorStartingInfos = st.delegatorStartingInfos
  slashEvents : st'.validatorSlashEvents = st.validatorSlashEvents

theorem SameRefs.refl (st : RewardsStore) : st.SameRefs st := ⟨rfl, rfl, rfl, rfl⟩

theorem SameRefs.trans {st st' st'' : RewardsStore} (h : st''.SameRefs st') (h' : st'.SameRefs st) :
    st''.SameRefs st :=
  ⟨h.historical.trans h'.historical, h.currentPeriod.trans h'.currentPeriod,
    h.startingInfos.trans h'.startingInfos, h.slashEvents.trans h'.slashEvents⟩

end RewardsStore

section Specs

variable {st st' : RewardsStore} {val : ValAddress} {period : Nat}

theorem incrementReferenceCount_eq_some (h : incrementReferenceCount st val period = some st') :
    ∃ historical, st.validatorHistoricalRewards.lookup (val, period) = some historical ∧
      historical.referenceCount ≤ 2 ∧
      st' = { st with
        validatorHistoricalRewards := st.validatorHistoricalRewards.insert (val, period)
          { historical with referenceCount := historical.referenceCount + 1 } } := by
  unfold incrementReferenceCount at h
  obtain ⟨historical, hl, h⟩ := Option.bind_eq_some_iff.1 h
  split at h
  · cases h
  next hle =>
    cases h
    exact ⟨historical, hl, by omega, rfl⟩

theorem decrementReferenceCount_eq_some (h : decrementReferenceCount st val period = some st') :
    ∃ historical, st.validatorHistoricalRewards.lookup (val, period) = some historical ∧
      (historical.referenceCount = 1 ∧
          st' = { st with
            validatorHistoricalRewards := st.validatorHistoricalRewards.erase (val, period) } ∨
        1 < historical.referenceCount ∧
          st' = { st with
            validatorHistoricalRewards := st.validatorHistoricalRewards.insert (val, period)
              { historical with referenceCount := historical.referenceCount - 1 } }) := by
  unfold decrementReferenceCount at h
  obtain ⟨historical, hl, h⟩ := Option.bind_eq_some_iff.1 h
  refine ⟨historical, hl, ?_⟩
  split at h
  · cases h
  dsimp only at h
  split at h
  · cases h
    exact Or.inl ⟨by omega, rfl⟩
  · cases h
    exact Or.inr ⟨by omega, rfl⟩

theorem currentRatio_sameRefs {rewards current : DecCoins} {tokens : SdkInt}
    (h : currentRatio st val rewards tokens = some (st', current)) : st'.SameRefs st := by
  unfold currentRatio at h
  split at h
  · obtain ⟨communityPool, -, h⟩ := Option.bind_eq_some_iff.1 h
    obtain ⟨outstanding, -, h⟩ := Option.bind_eq_some_iff.1 h
    obtain ⟨outstanding', -, h⟩ := Option.bind_eq_some_iff.1 h
    cases h
    exact ⟨rfl, rfl, rfl, rfl⟩
  · obtain ⟨current', -, h⟩ := Option.bind_eq_some_iff.1 h
    cases h
    exact RewardsStore.SameRefs.refl st

/-- `incrementValidatorPeriod` releases the period before the current one, stores the current one
with one reference, and moves on. -/
theorem incrementValidatorPeriod_eq_some {tokens : SdkInt}
    (h : incrementValidatorPeriod st val tokens = some (st', period)) :
    st.validatorCurrentPeriod.lookup val = some period ∧
      ∃ st₀ st₁ cumulativeRewardRatio, st₀.SameRefs st ∧
        decrementReferenceCount st₀ val (period - 1) = some st₁ ∧
        st'.validatorHistoricalRewards = st₁.validatorHistoricalRewards.insert (val, period)
          ⟨cumulativeRewardRatio, 1⟩ ∧
        st'.validatorCurrentPeriod = st₁.validatorCurrentPeriod.insert val (period + 1) ∧
        st'.delegatorStartingInfos = st₁.delegatorStartingInfos ∧
        st'.validatorSlashEvents = st₁.validatorSlashEvents := by
  unfold incrementValidatorPeriod at h
  obtain ⟨rewards, -, h⟩ := Option.bind_eq_some_iff.1 h
  obtain ⟨period', hp, h⟩ := Option.bind_eq_some_iff.1 h
  obtain ⟨⟨st₀, current⟩, h₀, h⟩ := Option.bind_eq_some_iff.1 h
  obtain ⟨historical, -, h⟩ := Option.bind_eq_some_iff.1 h
  obtain ⟨st₁, h₁, h⟩ := Option.bind_eq_some_iff.1 h
  obtain ⟨ratio, -, h⟩ := Option.bind_eq_some_iff.1 h
  cases h
  exact ⟨hp, st₀, st₁, ratio, currentRatio_sameRefs h₀, h₁, rfl, rfl, rfl, rfl⟩

theorem updateValidatorSlashFraction_eq_some {tokens : SdkInt} {height : Nat} {fraction : Dec}
    (h : updateValidatorSlashFraction st val tokens height fraction = some st') :
    ∃ st₁ st₂ newPeriod, incrementValidatorPeriod st val tokens = some (st₁, newPeriod) ∧
      incrementReferenceCount st₁ val newPeriod = some st₂ ∧
      st' = { st₂ with
        validatorSlashEvents :=
          st₂.validatorSlashEvents.insert (val, height, newPeriod) ⟨newPeriod, fraction⟩ } := by
  unfold updateValidatorSlashFraction at h
  split at h
  · cases h
  obtain ⟨⟨st₁, newPeriod⟩, h₁, h⟩ := Option.bind_eq_some_iff.1 h
  obtain ⟨st₂, h₂, h⟩ := Option.bind_eq_some_iff.1 h
  cases h
  exact ⟨st₁, st₂, newPeriod, h₁, h₂, rfl⟩

theorem initializeDelegation_eq_some {validator : Staking.Validator} {del : AccAddress}
    {shares : Dec} {height : Nat} (h : initializeDelegation st val validator del shares height = some st') :
    ∃ period st₁ stake, st.validatorCurrentPeriod.lookup val = some period ∧
      incrementReferenceCount st val (period - 1) = some st₁ ∧
      st' = { st₁ with
        delegatorStartingInfos :=
          st₁.delegatorStartingInfos.insert (val, del) ⟨period - 1, stake, height⟩ } := by
  unfold initializeDelegation at h
  obtain ⟨period, hp, h⟩ := Option.bind_eq_some_iff.1 h
  obtain ⟨st₁, h₁, h⟩ := Option.bind_eq_some_iff.1 h
  obtain ⟨stake, -, h⟩ := Option.bind_eq_some_iff.1 h
  cases h
  exact ⟨period, st₁, stake, hp, h₁, rfl⟩

variable {toLower : String → String} {permAddrs : String → Option PermissionsForAddress}
  {blockTime : Int64}
  {s s' : RewardsState}

/-- `withdrawDelegationRewards` ends the period, then drops the delegation's reference and its
starting info; what it pays leaves the four stores of the references alone. -/
theorem withdrawDelegationRewards_eq_some {validator : Staking.Validator} {del : AccAddress}
    {shares : Dec} {height : Nat} {coins : Coins}
    (h : withdrawDelegationRewards toLower permAddrs blockTime s val validator del shares height =
      some (s', coins)) :
    ∃ st₁ endingPeriod st₂ startingInfo st₃,
      incrementValidatorPeriod s.store val validator.tokens = some (st₁, endingPeriod) ∧
      st₂.SameRefs st₁ ∧ st₂.delegatorStartingInfos.lookup (val, del) = some startingInfo ∧
      decrementReferenceCount st₂ val startingInfo.previousPeriod = some st₃ ∧
      s'.store = { st₃ with delegatorStartingInfos := st₃.delegatorStartingInfos.erase (val, del) } := by
  unfold withdrawDelegationRewards at h
  split at h
  · cases h
  obtain ⟨⟨st₁, endingPeriod⟩, h₁, h⟩ := Option.bind_eq_some_iff.1 h
  obtain ⟨rewardsRaw, -, h⟩ := Option.bind_eq_some_iff.1 h
  obtain ⟨outstanding, -, h⟩ := Option.bind_eq_some_iff.1 h
  obtain ⟨rewards, -, h⟩ := Option.bind_eq_some_iff.1 h
  obtain ⟨⟨coins', remainder⟩, -, h⟩ := Option.bind_eq_some_iff.1 h
  obtain ⟨supply, -, h⟩ := Option.bind_eq_some_iff.1 h
  obtain ⟨outstanding', -, h⟩ := Option.bind_eq_some_iff.1 h
  obtain ⟨communityPool, -, h⟩ := Option.bind_eq_some_iff.1 h
  obtain ⟨startingInfo, hi, h⟩ := Option.bind_eq_some_iff.1 h
  obtain ⟨st₃, h₃, h⟩ := Option.bind_eq_some_iff.1 h
  cases h
  refine ⟨st₁, endingPeriod, _, startingInfo, st₃, h₁, ?_, hi, h₃, rfl⟩
  exact ⟨rfl, rfl, rfl, rfl⟩

theorem withdrawRemovedCommission_sameRefs {outstanding outstanding' : DecCoins}
    (h : withdrawRemovedCommission toLower permAddrs blockTime s val outstanding = some (s', outstanding')) :
    s'.store.SameRefs s.store := by
  unfold withdrawRemovedCommission at h
  dsimp only at h
  split at h
  · cases h
    exact RewardsStore.SameRefs.refl _
  obtain ⟨outstanding₁, -, h⟩ := Option.bind_eq_some_iff.1 h
  obtain ⟨⟨coins, remainder⟩, -, h⟩ := Option.bind_eq_some_iff.1 h
  obtain ⟨communityPool, -, h⟩ := Option.bind_eq_some_iff.1 h
  obtain ⟨supply, -, h⟩ := Option.bind_eq_some_iff.1 h
  cases h
  exact ⟨rfl, rfl, rfl, rfl⟩

/-- `WithdrawValidatorCommission` writes the commission, the outstanding rewards and the supply. -/
theorem withdrawValidatorCommission_sameRefs {commission : Coins}
    (h : withdrawValidatorCommission toLower permAddrs blockTime s val = some (s', commission)) :
    s'.store.SameRefs s.store := by
  unfold withdrawValidatorCommission at h
  dsimp only at h
  split at h
  · cases h
  obtain ⟨⟨coins, remainder⟩, -, h⟩ := Option.bind_eq_some_iff.1 h
  obtain ⟨outstanding, -, h⟩ := Option.bind_eq_some_iff.1 h
  obtain ⟨decCoins, -, h⟩ := Option.bind_eq_some_iff.1 h
  obtain ⟨outstanding', -, h⟩ := Option.bind_eq_some_iff.1 h
  obtain ⟨supply, -, h⟩ := Option.bind_eq_some_iff.1 h
  cases h
  exact ⟨rfl, rfl, rfl, rfl⟩

/-- `WithdrawDelegationRewards` of a validator and a delegation the staking keeper holds: the
withdrawal, then the delegation starts again. -/
theorem withdrawDelegatorReward_eq_some {validator : Option Staking.Validator} {del : AccAddress}
    {shares : Option Dec} {height : Nat} {rewards : Coins}
    (h : withdrawDelegatorReward toLower permAddrs blockTime s val validator del shares height =
      some (s', rewards)) :
    ∃ v sh s₁, validator = some v ∧ shares = some sh ∧
      withdrawDelegationRewards toLower permAddrs blockTime s val v del sh height = some (s₁, rewards) ∧
      initializeDelegation s₁.store val v del sh height = some s'.store := by
  unfold withdrawDelegatorReward at h
  split at h
  · rename_i v
    split at h
    · rename_i sh
      obtain ⟨⟨s₁, r⟩, h₁, h⟩ := Option.bind_eq_some_iff.1 h
      obtain ⟨st, h₂, h⟩ := Option.bind_eq_some_iff.1 h
      cases h
      exact ⟨v, sh, s₁, rfl, rfl, h₁, h₂⟩
    · cases h
  · cases h

/-- `AfterValidatorRemoved` deletes the validator's period, historical records and slash events. -/
theorem afterValidatorRemoved_eq_some (h : afterValidatorRemoved toLower permAddrs blockTime s val = some s') :
    s'.store.validatorHistoricalRewards =
        RewardsStore.deletePrefix s.store.validatorHistoricalRewards val ∧
      s'.store.validatorCurrentPeriod = s.store.validatorCurrentPeriod.erase val ∧
      s'.store.delegatorStartingInfos = s.store.delegatorStartingInfos ∧
      s'.store.validatorSlashEvents = RewardsStore.deletePrefix s.store.validatorSlashEvents val := by
  unfold afterValidatorRemoved at h
  obtain ⟨outstanding, -, h⟩ := Option.bind_eq_some_iff.1 h
  obtain ⟨⟨s₁, outstanding₁⟩, h₁, h⟩ := Option.bind_eq_some_iff.1 h
  obtain ⟨communityPool, -, h⟩ := Option.bind_eq_some_iff.1 h
  cases h
  obtain ⟨hh, hc, hs, he⟩ := withdrawRemovedCommission_sameRefs h₁
  exact ⟨by rw [hh], by rw [hc], hs, by rw [he]⟩

end Specs

end Barkis.Distribution
