import Barkis.Distribution.ReferenceCount
import Barkis.Staking.Reachable

/-!
# The distribution hooks of the staking keeper

`x/distribution/keeper/hooks.go`: the staking keeper calls the distribution keeper when a
validator is created or removed, before and after a delegation changes, and before a validator
is slashed. `hooks ctx` is that `StakingHooks` at the block of `ctx`: each hook reads what it
needs of the staking stores and writes the distribution stores (`ext`) and the supply. A hook
that reads a missing validator or delegation panics, as the source does on the nil it gets.

`Linked s`: the distribution stores follow the staking stores. The reference counts are kept
(`Counted`), a validator has a current period exactly when the staking keeper holds it, and a
delegation has a starting info exactly when the staking keeper holds it. Between the hook before
a delegation changes and the one after, the delegation is `Pending`: it has no starting info,
and its validator's last period is fresh.

* `Linked.frame`: what leaves the distribution stores and the keys of the validators and of the
  delegations alone keeps `Linked`; the staking keeper's writes other than its hooks do so
  (`Frame`).
* One lemma per hook, under what the staking keeper holds when it calls it.
* `Linked.referenceCount`: in a linked state `ReferenceCountInvariant` holds.
-/

namespace Barkis.Distribution

open Bank Supply Staking RefCount RewardsStore

variable (toLower : String → String) (permAddrs : String → Option PermissionsForAddress)

/-- `Hooks` at the block of `ctx`; the height written is the `uint64` of `ctx.BlockHeight()`. -/
def hooks (ctx : Staking.Context) : Staking.Hooks RewardsStore where
  afterValidatorCreated s valAddr :=
    (getValidator s valAddr).map fun _ => { s with ext := initializeValidator s.ext valAddr }
  beforeValidatorModified s _ := some s
  afterValidatorRemoved s valAddr :=
    (Distribution.afterValidatorRemoved toLower permAddrs ctx.blockTime ⟨s.ext, s.supply⟩
      valAddr).map fun r => { s with ext := r.store, supply := r.supply }
  afterValidatorBonded s _ := some s
  afterValidatorBeginUnbonding s _ := some s
  beforeDelegationCreated s _ valAddr := do
    let validator ← getValidator s valAddr
    let (ext, _) ← incrementValidatorPeriod s.ext valAddr validator.tokens
    pure { s with ext }
  beforeDelegationSharesModified s delAddr valAddr := do
    let validator ← getValidator s valAddr
    let shares ← getDelegation s delAddr valAddr
    let (r, _) ← withdrawDelegationRewards toLower permAddrs ctx.blockTime ⟨s.ext, s.supply⟩ valAddr
      validator delAddr shares ctx.height.toNat
    pure { s with ext := r.store, supply := r.supply }
  beforeDelegationRemoved s _ _ := some s
  afterDelegationModified s delAddr valAddr := do
    let validator ← getValidator s valAddr
    let shares ← getDelegation s delAddr valAddr
    let ext ← initializeDelegation s.ext valAddr validator delAddr shares ctx.height.toNat
    pure { s with ext }
  beforeValidatorSlashed s valAddr fraction := do
    let validator ← getValidator s valAddr
    let ext ← updateValidatorSlashFraction s.ext valAddr validator.tokens ctx.height.toNat fraction
    pure { s with ext }

/-- `ReferenceCountInvariant` is broken: the counts do not add up to one per validator, per
delegation and per slash event. Its message is left out. -/
def referenceCountBroken (s : Staking.State RewardsStore) : Bool :=
  s.ext.getValidatorHistoricalReferenceCount !=
    s.store.validators.keys.length + s.store.delegations.keys.length +
      s.ext.validatorSlashEvents.keys.length

variable {toLower permAddrs} {blockTime : Int64} {ctx : Staking.Context} {s s' s₁ : Staking.State RewardsStore}
  {delAddr : AccAddress} {valAddr : ValAddress}

/-! ## What each hook does -/

theorem hooks_keepStore (ctx : Staking.Context) : (hooks toLower permAddrs ctx).KeepStore where
  afterValidatorCreated s a s' h := by
    obtain ⟨_, -, rfl⟩ := Option.map_eq_some_iff.1 h
    rfl
  beforeValidatorModified s a s' h := by
    cases h
    rfl
  afterValidatorRemoved s a s' h := by
    obtain ⟨_, -, rfl⟩ := Option.map_eq_some_iff.1 h
    rfl
  afterValidatorBonded s a s' h := by
    cases h
    rfl
  afterValidatorBeginUnbonding s a s' h := by
    cases h
    rfl
  beforeDelegationCreated s d a s' h := by
    obtain ⟨_, -, h⟩ := Option.bind_eq_some_iff.1 h
    obtain ⟨_, -, h⟩ := Option.bind_eq_some_iff.1 h
    cases h
    rfl
  beforeDelegationSharesModified s d a s' h := by
    obtain ⟨_, -, h⟩ := Option.bind_eq_some_iff.1 h
    obtain ⟨_, -, h⟩ := Option.bind_eq_some_iff.1 h
    obtain ⟨_, -, h⟩ := Option.bind_eq_some_iff.1 h
    cases h
    rfl
  beforeDelegationRemoved s d a s' h := by
    cases h
    rfl
  afterDelegationModified s d a s' h := by
    obtain ⟨_, -, h⟩ := Option.bind_eq_some_iff.1 h
    obtain ⟨_, -, h⟩ := Option.bind_eq_some_iff.1 h
    obtain ⟨_, -, h⟩ := Option.bind_eq_some_iff.1 h
    cases h
    rfl
  beforeValidatorSlashed s a f s' h := by
    obtain ⟨_, -, h⟩ := Option.bind_eq_some_iff.1 h
    obtain ⟨_, -, h⟩ := Option.bind_eq_some_iff.1 h
    cases h
    rfl

theorem hooks_beforeDelegationCreated
    (h : (hooks toLower permAddrs ctx).beforeDelegationCreated s delAddr valAddr = some s') :
    s'.store = s.store ∧ ∃ validator period, getValidator s valAddr = some validator ∧
      incrementValidatorPeriod s.ext valAddr validator.tokens = some (s'.ext, period) := by
  obtain ⟨validator, hv, h⟩ := Option.bind_eq_some_iff.1 h
  obtain ⟨⟨ext, period⟩, hi, h⟩ := Option.bind_eq_some_iff.1 h
  cases h
  exact ⟨rfl, validator, period, hv, hi⟩

theorem hooks_beforeDelegationSharesModified
    (h : (hooks toLower permAddrs ctx).beforeDelegationSharesModified s delAddr valAddr = some s') :
    s'.store = s.store ∧ ∃ validator shares coins, getValidator s valAddr = some validator ∧
      withdrawDelegationRewards toLower permAddrs ctx.blockTime ⟨s.ext, s.supply⟩ valAddr validator delAddr shares
        ctx.height.toNat = some (⟨s'.ext, s'.supply⟩, coins) := by
  obtain ⟨validator, hv, h⟩ := Option.bind_eq_some_iff.1 h
  obtain ⟨shares, -, h⟩ := Option.bind_eq_some_iff.1 h
  obtain ⟨⟨r, coins⟩, hw, h⟩ := Option.bind_eq_some_iff.1 h
  cases h
  exact ⟨rfl, validator, shares, coins, hv, hw⟩

theorem hooks_afterDelegationModified
    (h : (hooks toLower permAddrs ctx).afterDelegationModified s delAddr valAddr = some s') :
    s'.store = s.store ∧ ∃ validator shares,
      initializeDelegation s.ext valAddr validator delAddr shares ctx.height.toNat = some s'.ext := by
  obtain ⟨validator, -, h⟩ := Option.bind_eq_some_iff.1 h
  obtain ⟨shares, -, h⟩ := Option.bind_eq_some_iff.1 h
  obtain ⟨ext, hi, h⟩ := Option.bind_eq_some_iff.1 h
  cases h
  exact ⟨rfl, validator, shares, hi⟩

theorem hooks_beforeValidatorSlashed {fraction : Dec}
    (h : (hooks toLower permAddrs ctx).beforeValidatorSlashed s valAddr fraction = some s') :
    s'.store = s.store ∧ ∃ tokens height,
      updateValidatorSlashFraction s.ext valAddr tokens height fraction = some s'.ext := by
  obtain ⟨validator, -, h⟩ := Option.bind_eq_some_iff.1 h
  obtain ⟨ext, hu, h⟩ := Option.bind_eq_some_iff.1 h
  cases h
  exact ⟨rfl, _, _, hu⟩

theorem hooks_afterValidatorRemoved
    (h : (hooks toLower permAddrs ctx).afterValidatorRemoved s valAddr = some s') :
    s'.store = s.store ∧
      Distribution.afterValidatorRemoved toLower permAddrs ctx.blockTime ⟨s.ext, s.supply⟩ valAddr =
        some ⟨s'.ext, s'.supply⟩ := by
  obtain ⟨r, hr, rfl⟩ := Option.map_eq_some_iff.1 h
  exact ⟨rfl, hr⟩

/-! ## The writes that leave the distribution stores alone -/

section Frames

variable {σ : Type} {s s' s'' : Staking.State σ}

/-- The stores of the other modules, and the keys of the validators and of the delegations, are
those of `s`. -/
structure Frame (s' s : Staking.State σ) : Prop where
  ext : s'.ext = s.ext
  validators : ∀ a, a ∈ s'.store.validators ↔ a ∈ s.store.validators
  delegations : ∀ key, key ∈ s'.store.delegations ↔ key ∈ s.store.delegations

theorem Frame.refl (s : Staking.State σ) : Frame s s := ⟨rfl, fun _ => Iff.rfl, fun _ => Iff.rfl⟩

theorem Frame.trans (h : Frame s'' s') (h' : Frame s' s) : Frame s'' s :=
  ⟨h.ext.trans h'.ext, fun a => (h.validators a).trans (h'.validators a),
    fun key => (h.delegations key).trans (h'.delegations key)⟩

theorem Frame.of_store (hstore : s'.store = s.store) (hext : s'.ext = s.ext) : Frame s' s :=
  ⟨hext, fun a => by rw [hstore], fun key => by rw [hstore]⟩

/-- A write after `hf` that leaves the distribution stores, the validators and the delegations
alone: the staking keeper's writes of its other stores. -/
theorem Frame.write (hf : Frame s' s) (hext : s''.ext = s'.ext)
    (hv : s''.store.validators = s'.store.validators)
    (hd : s''.store.delegations = s'.store.delegations) : Frame s'' s :=
  ⟨hext.trans hf.ext, fun a => by rw [hv]; exact hf.validators a,
    fun key => by rw [hd]; exact hf.delegations key⟩

/-- A write of the supply only, such as a transfer between the pools or a burn. -/
theorem Frame.of_supply (h : s' = { s with supply := s'.supply }) : Frame s' s := by
  rw [h]
  exact Frame.of_store rfl rfl

/-- A validator written at a stored address. -/
theorem setValidator_frame {addr : ValAddress} {validator : Staking.Validator}
    (hv : addr ∈ s.store.validators) : Frame (setValidator s addr validator) s :=
  ⟨rfl, fun a => by
    simp only [setValidator, State.modify_store, AList.mem_insert]
    exact ⟨fun h => h.elim (· ▸ hv) id, Or.inr⟩, fun _ => Iff.rfl⟩

theorem updateValidator_frame {α : Type} {addr : ValAddress} {validator validator' : Staking.Validator}
    {change : Staking.Validator → Option (Staking.Validator × α)} {r : α}
    (hv : addr ∈ s.store.validators)
    (h : updateValidator s addr validator change = some (s', validator', r)) : Frame s' s := by
  unfold updateValidator at h
  obtain ⟨s₁, h₁, h⟩ := Option.bind_eq_some_iff.1 h
  obtain ⟨k, -, rfl⟩ := Option.map_eq_some_iff.1 h₁
  obtain ⟨⟨v, r'⟩, -, h⟩ := Option.bind_eq_some_iff.1 h
  obtain ⟨s₃, h₃, h⟩ := Option.bind_eq_some_iff.1 h
  obtain rfl : s₃ = s' := (Prod.mk.inj (Option.some.inj h)).1
  have hv₁ : addr ∈ (s.modify fun st =>
      { st with validatorsByPower := st.validatorsByPower.erase k }).store.validators := hv
  have h₂ : Frame (setValidator (s.modify fun st =>
      { st with validatorsByPower := st.validatorsByPower.erase k }) addr v) s :=
    (setValidator_frame hv₁).trans ((Frame.refl s).write rfl rfl rfl)
  unfold setValidatorByPowerIndex at h₃
  split at h₃
  · cases h₃
    exact h₂
  · obtain ⟨k', -, rfl⟩ := Option.map_eq_some_iff.1 h₃
    exact h₂.write rfl rfl rfl

theorem jailValidator_frame {addr : ValAddress} {validator : Staking.Validator}
    (hv : addr ∈ s.store.validators) (h : jailValidator s addr validator = some s') : Frame s' s := by
  unfold jailValidator at h
  split at h
  · cases h
  · obtain ⟨k, -, rfl⟩ := Option.map_eq_some_iff.1 h
    exact (setValidator_frame hv).write rfl rfl rfl

theorem unjailValidator_frame {addr : ValAddress} {validator : Staking.Validator}
    (hv : addr ∈ s.store.validators) (h : unjailValidator s addr validator = some s') :
    Frame s' s := by
  unfold unjailValidator at h
  split at h
  · cases h
  · simp only [setValidatorByPowerIndex, Bool.false_eq_true, if_false] at h
    obtain ⟨k, -, rfl⟩ := Option.map_eq_some_iff.1 h
    exact (setValidator_frame hv).write rfl rfl rfl

theorem jailIfBelowMinSelfDelegation_frame {addr : ValAddress} {validator validator' : Staking.Validator}
    {remaining : Dec} (hv : valAddr ∈ s.store.validators)
    (h : jailIfBelowMinSelfDelegation s addr valAddr validator remaining = some (s', validator')) :
    Frame s' s := by
  rcases jailIfBelowMinSelfDelegation_spec h with ⟨hs, -⟩ | ⟨hj, -⟩
  · exact hs ▸ Frame.refl s
  · exact jailValidator_frame hv hj

end Frames

/-! ## The link between the two keepers -/

/-- The distribution stores follow the staking stores. -/
structure Linked (s : Staking.State RewardsStore) : Prop where
  counted : Counted s.ext
  validators : ∀ val, val ∈ s.store.validators ↔ val ∈ s.ext.validatorCurrentPeriod
  delegations : ∀ del val,
    (del, val) ∈ s.store.delegations ↔ (val, del) ∈ s.ext.delegatorStartingInfos

/-- `Linked` but for the delegation of `del` to `val`, which has no starting info, the period of
its validator having just been ended. -/
structure Pending (s : Staking.State RewardsStore) (del : AccAddress) (val : ValAddress) : Prop where
  counted : Counted s.ext
  validators : ∀ val, val ∈ s.store.validators ↔ val ∈ s.ext.validatorCurrentPeriod
  delegations : ∀ d v, (d, v) ≠ (del, val) →
    ((d, v) ∈ s.store.delegations ↔ (v, d) ∈ s.ext.delegatorStartingInfos)
  notMem : (val, del) ∉ s.ext.delegatorStartingInfos
  fresh : s.ext.Fresh val

theorem Linked.frame (h : Linked s) (hf : Frame s' s) : Linked s' :=
  ⟨hf.ext ▸ h.counted, fun v => by rw [hf.validators, hf.ext]; exact h.validators v,
    fun d v => by rw [hf.delegations, hf.ext]; exact h.delegations d v⟩

theorem Pending.frame (h : Pending s delAddr valAddr) (hf : Frame s' s) :
    Pending s' delAddr valAddr :=
  ⟨hf.ext ▸ h.counted, fun v => by rw [hf.validators, hf.ext]; exact h.validators v,
    fun d v hne => by rw [hf.delegations, hf.ext]; exact h.delegations d v hne,
    hf.ext ▸ h.notMem, hf.ext ▸ h.fresh⟩

/-! ## The hooks keep the link -/

/-- `AfterValidatorCreated`, called once the new validator is written. -/
theorem Linked.afterValidatorCreated (h : Linked s) (hval : valAddr ∉ s.store.validators)
    (hvals : ∀ a, a ∈ s₁.store.validators ↔ a = valAddr ∨ a ∈ s.store.validators)
    (hdels : s₁.store.delegations = s.store.delegations) (hext : s₁.ext = s.ext)
    (hh : (hooks toLower permAddrs ctx).afterValidatorCreated s₁ valAddr = some s') : Linked s' := by
  obtain ⟨_, -, rfl⟩ := Option.map_eq_some_iff.1 hh
  have hcur : valAddr ∉ s.ext.validatorCurrentPeriod := fun hm => hval ((h.validators _).2 hm)
  refine ⟨?_, fun a => ?_, fun d v => ?_⟩
  · rw [hext]
    exact h.counted.initializeValidator hcur
  · simp only [initializeValidator, hvals, AList.mem_insert, hext, h.validators]
  · simp only [initializeValidator, hdels, hext]
    exact h.delegations d v

/-- `BeforeDelegationCreated` of a delegation not yet made ends its validator's period. -/
theorem Linked.beforeDelegationCreated (h : Linked s) (hd : (delAddr, valAddr) ∉ s.store.delegations)
    (hh : (hooks toLower permAddrs ctx).beforeDelegationCreated s delAddr valAddr = some s') :
    Pending s' delAddr valAddr := by
  obtain ⟨hstore, validator, period, -, hi⟩ := hooks_beforeDelegationCreated hh
  obtain ⟨hc, hf⟩ := h.counted.incrementValidatorPeriod hi
  obtain ⟨-, -, hstart, -⟩ := incrementValidatorPeriod_refs hi
  refine ⟨hc, fun v => ?_, fun d v _ => ?_, ?_, hf⟩
  · rw [hstore, mem_incrementValidatorPeriod hi]
    exact h.validators v
  · rw [hstore, hstart]
    exact h.delegations d v
  · rw [hstart, ← h.delegations]
    exact hd

/-- `BeforeDelegationSharesModified` withdraws the rewards, which drops the starting info. -/
theorem Linked.beforeDelegationSharesModified (h : Linked s)
    (hh : (hooks toLower permAddrs ctx).beforeDelegationSharesModified s delAddr valAddr = some s') :
    Pending s' delAddr valAddr := by
  obtain ⟨hstore, validator, shares, coins, -, hw⟩ := hooks_beforeDelegationSharesModified hh
  obtain ⟨hc, hf⟩ := h.counted.withdrawDelegationRewards hw
  obtain ⟨hcur, hstart, -⟩ := withdrawDelegationRewards_refs hw
  refine ⟨hc, fun v => ?_, fun d v hne => ?_, ?_, hf⟩
  · rw [hstore, hcur]
    exact h.validators v
  · rw [hstore, hstart, ← h.delegations]
    exact ⟨fun hm => ⟨fun he => hne (by cases he; rfl), hm⟩, fun hm => hm.2⟩
  · rw [hstart]
    exact fun hm => hm.1 rfl

/-- `AfterDelegationModified` of the pending delegation, once written. -/
theorem Pending.afterDelegationModified (h : Pending s delAddr valAddr) {shares : Dec}
    (hh : (hooks toLower permAddrs ctx).afterDelegationModified
      (setDelegation s delAddr valAddr shares) delAddr valAddr = some s') : Linked s' := by
  obtain ⟨hstore, validator, shares', hi⟩ := hooks_afterDelegationModified hh
  obtain ⟨hcur, hstart, -⟩ := initializeDelegation_refs hi
  refine ⟨h.counted.initializeDelegation h.fresh h.notMem hi, fun v => ?_, fun d v => ?_⟩
  · rw [hstore, hcur]
    exact h.validators v
  · rw [hstore, hstart]
    simp only [setDelegation, State.modify_store, AList.mem_insert, Prod.mk.injEq]
    by_cases hdv : (d, v) = (delAddr, valAddr)
    · obtain ⟨rfl, rfl⟩ := Prod.mk.inj hdv
      simp
    · have hne : ¬(v = valAddr ∧ d = delAddr) := fun ⟨hv, hd⟩ => hdv (by rw [hv, hd])
      have hne' : ¬(d = delAddr ∧ v = valAddr) := fun ⟨hd, hv⟩ => hdv (by rw [hv, hd])
      simp only [hne, hne', false_or]
      exact h.delegations d v hdv

/-- `RemoveDelegation` of the pending delegation. -/
theorem Pending.removeDelegation (h : Pending s delAddr valAddr)
    (hr : removeDelegation (hooks toLower permAddrs ctx) s delAddr valAddr = some s') : Linked s' := by
  obtain ⟨s₁, h₁, rfl⟩ := Option.map_eq_some_iff.1 hr
  cases h₁
  refine ⟨h.counted, h.validators, fun d v => ?_⟩
  simp only [State.modify_store, AList.mem_erase]
  by_cases hdv : (d, v) = (delAddr, valAddr)
  · obtain ⟨rfl, rfl⟩ := Prod.mk.inj hdv
    simp only [ne_eq, not_true_eq_false, false_and, false_iff]
    exact h.notMem
  · simp only [ne_eq, hdv, not_false_eq_true, true_and]
    exact h.delegations d v hdv

/-- `RemoveValidator`: where the validator is removed, no delegation names it afterwards, as the
staking keeper's books say, so it leaves no starting info. -/
theorem Linked.removeValidator (h : Linked s)
    (hr : Staking.removeValidator (hooks toLower permAddrs ctx) s valAddr = some s')
    (hb : ∀ key shares, s'.store.delegations.lookup key = some shares →
      key.2 ∈ s'.store.validators) : Linked s' := by
  unfold Staking.removeValidator at hr
  split at hr
  · cases hr
    exact h
  split at hr
  · cases hr
  split at hr
  · cases hr
  obtain ⟨k, -, hr⟩ := Option.bind_eq_some_iff.1 hr
  dsimp only at hr
  obtain ⟨hstore, hw⟩ := hooks_afterValidatorRemoved hr
  obtain ⟨-, hcur, hstart, -⟩ := afterValidatorRemoved_eq_some hw
  have hvals : s'.store.validators = s.store.validators.erase valAddr := by rw [hstore]; rfl
  have hdels : s'.store.delegations = s.store.delegations := by rw [hstore]; rfl
  have hdel : ∀ del, (valAddr, del) ∉ s.ext.delegatorStartingInfos := by
    intro del hm
    obtain ⟨shares, hl⟩ := Option.isSome_iff_exists.1
      (AList.lookup_isSome.2 ((h.delegations del valAddr).2 hm))
    have := hb (del, valAddr) shares (by rw [hdels]; exact hl)
    rw [hvals, AList.mem_erase] at this
    exact this.1 rfl
  refine ⟨h.counted.afterValidatorRemoved hdel hw, fun v => ?_, fun d v => ?_⟩
  · simp only [State.modify_ext] at hcur
    rw [hvals, hcur, AList.mem_erase, AList.mem_erase, h.validators]
  · simp only [State.modify_ext] at hstart
    rw [hdels, hstart]
    exact h.delegations d v

/-- `BeforeValidatorSlashed` ends the period and records the slash. -/
theorem Linked.beforeValidatorSlashed (h : Linked s) {fraction : Dec}
    (hh : (hooks toLower permAddrs ctx).beforeValidatorSlashed s valAddr fraction = some s') :
    Linked s' := by
  obtain ⟨hstore, tokens, height, hu⟩ := hooks_beforeValidatorSlashed hh
  obtain ⟨st₁, st₂, newPeriod, hi, hr, hs'⟩ := updateValidatorSlashFraction_eq_some hu
  obtain ⟨-, hc₂, hs₂, -⟩ := incrementReferenceCount_sameRefs hr
  obtain ⟨-, -, hstart, -⟩ := incrementValidatorPeriod_refs hi
  have hcur : s'.ext.validatorCurrentPeriod = st₁.validatorCurrentPeriod := by rw [hs']; exact hc₂
  have hst : s'.ext.delegatorStartingInfos = s.ext.delegatorStartingInfos := by
    rw [hs']
    exact hs₂.trans hstart
  refine ⟨h.counted.updateValidatorSlashFraction hu, fun v => ?_, fun d v => ?_⟩
  · rw [hstore, hcur, mem_incrementValidatorPeriod hi]
    exact h.validators v
  · rw [hstore, hst]
    exact h.delegations d v

/-! ## The invariant of the source -/

theorem length_keys_eq {κ β β' : Type} [DecidableEq κ] {m : AList fun _ : κ => β}
    {m' : AList fun _ : κ => β'} (h : ∀ a, a ∈ m ↔ a ∈ m') : m.keys.length = m'.keys.length :=
  ((List.perm_ext_iff_of_nodup m.keys_nodup m'.keys_nodup).2 fun a => by
    rw [← AList.mem_keys, ← AList.mem_keys]
    exact h a).length_eq

/-- In a linked state the counts add up to one per validator, delegation and slash event. -/
theorem Linked.referenceCount (h : Linked s) :
    s.ext.getValidatorHistoricalReferenceCount =
      s.store.validators.keys.length + s.store.delegations.keys.length +
        s.ext.validatorSlashEvents.keys.length := by
  rw [h.counted.referenceCount, length_keys_eq fun v => (h.validators v).symm]
  congr 2
  -- the starting infos are keyed by validator and delegator, the delegations the other way
  have hnodup : (s.ext.delegatorStartingInfos.keys.map Prod.swap).Nodup :=
    s.ext.delegatorStartingInfos.keys_nodup.map Prod.swap_injective
  have hperm := (List.perm_ext_iff_of_nodup hnodup s.store.delegations.keys_nodup).2 fun key => by
    obtain ⟨d, v⟩ := key
    rw [← AList.mem_keys, List.mem_map]
    constructor
    · rintro ⟨⟨v', d'⟩, hm, he⟩
      simp only [Prod.swap_prod_mk, Prod.mk.injEq] at he
      obtain ⟨rfl, rfl⟩ := he
      exact (h.delegations d' v').2 (AList.mem_keys.2 hm)
    · intro hm
      exact ⟨(v, d), AList.mem_keys.1 ((h.delegations d v).1 hm), rfl⟩
  rw [← hperm.length_eq, List.length_map]

end Barkis.Distribution
