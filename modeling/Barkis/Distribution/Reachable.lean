import Barkis.Distribution.Hooks

/-!
# The reference counts over every run of the chain

The application wires the distribution keeper's hooks into the staking keeper (`app/app.go`,
with the slashing module's, which write only the slashing stores and are left out). Every staking
operation, run with the hooks at its block, keeps the distribution records linked to the staking
stores (`Linked`), given the share books of `Barkis.Staking.Books`, which every operation keeps
too: a validator is removed only when no delegation names it, so it leaves no starting info
behind. So do the distribution module's own writes, the fee allocation of its begin blocker and
its messages that withdraw a delegation's rewards and a validator's commission.

* One lemma per keeper function, following the hooks it calls in the order the source calls them:
  `Linked.delegate`, `Linked.unbond`, `Linked.slash`, `Linked.endBlocker`, `Linked.handler`.
* `Linked.step`, `run_linked`: every step, and so every run, keeps the link and the books.
* `referenceCount_invariant`: in every state a run reaches from a linked state, the counts add up
  as `ReferenceCountInvariant` checks, every validator's last period, every delegation's starting
  period and every slash event's period has its record, no record has a count of zero, and the
  records `calculateDelegationRewards` reads after a period ends are all there.
-/

namespace Barkis.Distribution

open Bank Supply RefCount RewardsStore

variable {toLower : String → String} {permAddrs : String → Option PermissionsForAddress}
  {ctx : Staking.Context} {blockTime : Int64} {s s' : Staking.State RewardsStore}
  {delAddr : AccAddress} {valAddr : Staking.ValAddress} {infractionHeight : Int} {slashFactor : Dec}

section Keeper

open Staking

theorem mem_of_getValidator {validator : Staking.Validator}
    (h : getValidator s valAddr = some validator) : valAddr ∈ s.store.validators :=
  AList.lookup_isSome.1 (by rw [show s.store.validators.lookup valAddr = some validator from h]; rfl)

/-! ## The end blocker's status changes write no distribution record -/

section EndBlock

variable {addr : ValAddress} {validator validator' : Staking.Validator}

theorem bondValidator_frame (hv : addr ∈ s.store.validators)
    (h : bondValidator (hooks toLower permAddrs ctx) s addr validator = some (s', validator')) :
    Frame s' s := by
  unfold bondValidator at h
  obtain ⟨⟨s₁, validator₁, u⟩, h₁, h⟩ := Option.bind_eq_some_iff.1 h
  obtain ⟨s₂, h₂, h⟩ := Option.bind_eq_some_iff.1 h
  -- the distribution keeper does nothing when a validator is bonded
  cases h₂
  cases h
  exact (updateValidator_frame hv h₁).write rfl rfl rfl

theorem beginUnbondingValidator_frame (hv : addr ∈ s.store.validators)
    (h : beginUnbondingValidator (hooks toLower permAddrs ctx) ctx s addr validator =
      some (s', validator')) : Frame s' s := by
  unfold beginUnbondingValidator at h
  obtain ⟨⟨s₁, validator₁, u⟩, h₁, h⟩ := Option.bind_eq_some_iff.1 h
  obtain ⟨s₂, h₂, h⟩ := Option.bind_eq_some_iff.1 h
  cases h₂
  cases h
  exact (updateValidator_frame hv h₁).write rfl rfl rfl

theorem applyValidators_frame {maxValidators : Nat} :
    ∀ {l : List (List UInt8 × ValAddress)} {count : Nat} {acc acc' : SetUpdate RewardsStore},
      applyValidators (hooks toLower permAddrs ctx) maxValidators count acc l = some acc' →
      Frame acc'.state acc.state
  | [], _, _, _, h => by
    cases h
    exact Frame.refl _
  | (_, valAddr) :: rest, count, acc, acc', h => by
    rw [Staking.applyValidators] at h
    split at h
    · cases h
      exact Frame.refl _
    obtain ⟨validator, hv, h⟩ := Option.bind_eq_some_iff.1 h
    split at h
    · cases h
    obtain ⟨power, -, h⟩ := Option.bind_eq_some_iff.1 h
    split at h
    · cases h
      exact Frame.refl _
    extract_lets tail at h
    -- a validator not bonded is bonded first
    obtain ⟨⟨s₁, validator₁, notBondedToBonded⟩, hf₁, h⟩ :
        ∃ r : Staking.State RewardsStore × Staking.Validator × SdkInt,
          Frame r.1 acc.state ∧ tail r = some acc' := by
      split at h
      next =>
        obtain ⟨⟨s₂, validator₂⟩, h₂, h⟩ := Option.bind_eq_some_iff.1 h
        obtain ⟨n, -, h⟩ := Option.bind_eq_some_iff.1 h
        exact ⟨(s₂, validator₂, n), bondValidator_frame (mem_of_getValidator hv) h₂, h⟩
      next =>
        obtain ⟨⟨s₂, validator₂⟩, h₂, h⟩ := Option.bind_eq_some_iff.1 h
        obtain ⟨n, -, h⟩ := Option.bind_eq_some_iff.1 h
        exact ⟨(s₂, validator₂, n), bondValidator_frame (mem_of_getValidator hv) h₂, h⟩
      next => exact ⟨(acc.state, validator, acc.notBondedToBonded), Frame.refl _, h⟩
    simp only [tail] at h
    obtain ⟨newPower, -, h⟩ := Option.bind_eq_some_iff.1 h
    split at h
    · exact (applyValidators_frame h).trans hf₁
    · exact (applyValidators_frame h).trans (hf₁.write rfl rfl rfl)

theorem unbondNoLongerBonded_frame :
    ∀ {l : List ValAddress} {acc acc' : Staking.State RewardsStore × List (ValAddress × Int) × SdkInt},
      unbondNoLongerBonded (hooks toLower permAddrs ctx) ctx acc l = some acc' → Frame acc'.1 acc.1
  | [], _, _, h => by
    cases h
    exact Frame.refl _
  | valAddr :: rest, acc, acc', h => by
    rw [Staking.unbondNoLongerBonded] at h
    obtain ⟨validator, hv, h⟩ := Option.bind_eq_some_iff.1 h
    split at h
    · cases h
    obtain ⟨⟨s₁, validator₁⟩, h₁, h⟩ := Option.bind_eq_some_iff.1 h
    obtain ⟨n, -, h⟩ := Option.bind_eq_some_iff.1 h
    exact (unbondNoLongerBonded_frame h).trans
      ((beginUnbondingValidator_frame (mem_of_getValidator hv) h₁).write rfl rfl rfl)

theorem applyAndReturnValidatorSetUpdates_frame {updates : List (ValAddress × Int)}
    (h : applyAndReturnValidatorSetUpdates (hooks toLower permAddrs ctx) toLower permAddrs ctx s =
      some (s', updates)) : Frame s' s := by
  obtain ⟨acc, s₂, s₃, updates₂, bondedToNotBonded, h₁, h₂, hs₃, he, hv, hd, -, -⟩ :=
    applyAndReturnValidatorSetUpdates_steps h
  have hf₂ : Frame s₂ s := (unbondNoLongerBonded_frame h₂).trans (applyValidators_frame h₁)
  exact ((Frame.of_supply hs₃).trans hf₂).write he hv hd

end EndBlock

/-! ## Delegating and unbonding -/

/-- `Delegate` to a stored validator: the hook before leaves the delegation pending, the transfer
and the validator's new tokens and shares leave the records alone, and the hook after links the
delegation again. -/
theorem Linked.delegate (hl : Linked s) (hv : valAddr ∈ s.store.validators)
    {validator : Staking.Validator} {bondAmt : SdkInt} {tokenSrc : BondStatus}
    {subtractAccount : Bool} {newShares : Dec}
    (h : delegate (hooks toLower permAddrs ctx) toLower permAddrs blockTime s delAddr bondAmt tokenSrc
      valAddr validator subtractAccount = some (s', newShares)) : Linked s' := by
  obtain ⟨-, s₁, s₂, s₃, validator', shares, hpre, hs₂, hadd, -, h₄⟩ := delegate_steps h
  obtain ⟨hp₁, hs₁⟩ : Pending s₁ delAddr valAddr ∧ s₁.store = s.store := by
    rcases hpre with ⟨hnone, h₁⟩ | h₁
    · exact ⟨hl.beforeDelegationCreated (AList.lookup_eq_none.1 hnone) h₁,
        (hooks_beforeDelegationCreated h₁).1⟩
    · exact ⟨hl.beforeDelegationSharesModified h₁, (hooks_beforeDelegationSharesModified h₁).1⟩
  have hf₂ : Frame s₂ s₁ := Frame.of_supply hs₂
  have hv₂ : valAddr ∈ s₂.store.validators := (hf₂.validators valAddr).2 (hs₁ ▸ hv)
  exact ((hp₁.frame hf₂).frame (updateValidator_frame hv₂ hadd)).afterDelegationModified h₄

/-- `unbond`: the hook before leaves the delegation pending, which is then removed or written and
linked again; a validator left without shares is removed, and the books say no delegation names
it. -/
theorem Linked.unbond (hl : Linked s) (hb : Books s.store 0) {shares : Dec} {amount : SdkInt}
    (h : unbond (hooks toLower permAddrs ctx) s delAddr valAddr shares = some (s', amount)) :
    Linked s' := by
  have hb' := (hb.unbond (hooks_keepStore ctx) h).1
  obtain ⟨delShares, remaining, validator, s₁, s₂, validator₂, s₃, s₄, validator₄, -, -, h₁, hv,
    -, hj, hdel, hrem, hfin⟩ := unbond_eq_some h
  have hp₁ := hl.beforeDelegationSharesModified h₁
  have hf₂ := jailIfBelowMinSelfDelegation_frame (mem_of_getValidator hv) hj
  -- the delegation is removed or cut
  obtain ⟨hl₃, hvals₃⟩ : Linked s₃ ∧ s₃.store.validators = s₂.store.validators := by
    rcases hdel with ⟨-, h₃⟩ | ⟨-, h₃⟩
    · exact ⟨(hp₁.frame hf₂).removeDelegation h₃,
        removeDelegation_validators (hooks_keepStore ctx) h₃⟩
    · exact ⟨(hp₁.frame hf₂).afterDelegationModified h₃,
        by rw [(hooks_afterDelegationModified h₃).1]; rfl⟩
  have hv₃ : valAddr ∈ s₃.store.validators := by
    rw [hvals₃]
    exact (hf₂.validators valAddr).2 (mem_of_getValidator hv)
  have hl₄ := hl₃.frame (updateValidator_frame hv₃ hrem)
  rcases hfin with ⟨-, -, h₅⟩ | ⟨-, rfl⟩
  · exact hl₄.removeValidator h₅ hb'.delegation_validator
  · exact hl₄

theorem Linked.undelegate (hl : Linked s) (hb : Books s.store 0) {sharesAmount : Dec}
    {completionTime : Nat}
    (h : undelegate (hooks toLower permAddrs ctx) toLower permAddrs ctx s delAddr valAddr
      sharesAmount = some (s', completionTime)) : Linked s' := by
  obtain ⟨s₁, returnAmount, h₁, he, hv, hd, -, -⟩ := undelegate_steps h
  exact (hl.unbond hb h₁).frame ((Frame.refl s₁).write he hv hd)

theorem Linked.beginRedelegation (hl : Linked s) (hb : Books s.store 0)
    {valSrcAddr valDstAddr : ValAddress} {sharesAmount : Dec} {completionTime : Nat}
    (h : beginRedelegation (hooks toLower permAddrs ctx) toLower permAddrs ctx s delAddr valSrcAddr
      valDstAddr sharesAmount = some (s', completionTime)) : Linked s' := by
  obtain ⟨hne, dstValidator, srcValidator, s₁, s₂, returnAmount, sharesCreated, hdst, h₁, -, h₂,
    hfin⟩ := beginRedelegation_steps h
  have hframe := (hb.unbond (hooks_keepStore ctx) h₁).2.2
  -- the destination is untouched by the unbonding from the source
  have hdst₁ : valDstAddr ∈ s₁.store.validators :=
    mem_of_getValidator (by rw [hframe valDstAddr (Ne.symm hne), hdst])
  have hl₂ := (hl.unbond hb h₁).delegate hdst₁ h₂
  rcases hfin with rfl | ⟨entries, rfl⟩
  · exact hl₂
  · exact hl₂.frame ((Frame.refl s₂).write rfl rfl rfl)

/-! ## `Slash`, `Jail` and `Unjail` -/

/-- The loop over a redelegation's entries unbonds from its destination. -/
theorem Linked.slashRedelegationEntries {valDstAddr : ValAddress} :
    ∀ {entries : List RedelegationEntry} {acc acc' : Staking.State RewardsStore × SdkInt × SdkInt × SdkInt},
      Linked acc.1 → Books acc.1.store 0 →
      slashRedelegationEntries (hooks toLower permAddrs ctx) ctx delAddr valDstAddr infractionHeight
        slashFactor acc entries = some acc' → Linked acc'.1
  | [], _, _, hl, _, h => by
    cases h
    exact hl
  | entry :: entries, (s, total, bondedBurned, notBondedBurned), acc', hl, hb, h => by
    change Linked s at hl
    change Books s.store 0 at hb
    rw [Staking.slashRedelegationEntries] at h
    split at h
    · exact Linked.slashRedelegationEntries hl hb h
    obtain ⟨slashAmount, -, h⟩ := Option.bind_eq_some_iff.1 h
    obtain ⟨total', -, h⟩ := Option.bind_eq_some_iff.1 h
    obtain ⟨sharesToUnbond, -, h⟩ := Option.bind_eq_some_iff.1 h
    split at h
    · exact Linked.slashRedelegationEntries hl hb h
    split at h
    · exact Linked.slashRedelegationEntries hl hb h
    obtain ⟨⟨s₁, tokensToBurn⟩, h₁, h⟩ := Option.bind_eq_some_iff.1 h
    have hl₁ := Linked.unbond hl hb h₁
    have hb₁ := (hb.unbond (hooks_keepStore ctx) h₁).1
    obtain ⟨dstValidator, -, h⟩ := Option.bind_eq_some_iff.1 h
    split at h
    · obtain ⟨bondedBurned', -, h⟩ := Option.bind_eq_some_iff.1 h
      exact Linked.slashRedelegationEntries hl₁ hb₁ h
    · obtain ⟨notBondedBurned', -, h⟩ := Option.bind_eq_some_iff.1 h
      exact Linked.slashRedelegationEntries hl₁ hb₁ h

theorem Linked.slashRedelegation (hl : Linked s) (hb : Books s.store 0) {valDstAddr : ValAddress}
    {entries : List RedelegationEntry} {total : SdkInt}
    (h : slashRedelegation (hooks toLower permAddrs ctx) toLower permAddrs ctx s delAddr valDstAddr
      entries infractionHeight slashFactor = some (s', total)) : Linked s' := by
  unfold Staking.slashRedelegation at h
  obtain ⟨⟨s₁, total₁, bonded, notBonded⟩, h₁, h⟩ := Option.bind_eq_some_iff.1 h
  have hl₁ : Linked s₁ := Linked.slashRedelegationEntries hl hb h₁
  dsimp only at h
  obtain ⟨s₂, h₂, h⟩ := Option.bind_eq_some_iff.1 h
  obtain ⟨s₃, h₃, h⟩ := Option.bind_eq_some_iff.1 h
  cases h
  exact hl₁.frame ((Frame.of_supply (burnPoolTokens_supply h₃)).trans
    (Frame.of_supply (burnPoolTokens_supply h₂)))

theorem Linked.slashRedelegations :
    ∀ {reds : List ((AccAddress × ValAddress) × List RedelegationEntry)}
      {acc acc' : Staking.State RewardsStore × SdkInt}, Linked acc.1 → Books acc.1.store 0 →
      slashRedelegations (hooks toLower permAddrs ctx) toLower permAddrs ctx infractionHeight
        slashFactor acc reds = some acc' → Linked acc'.1
  | [], _, _, hl, _, h => by
    cases h
    exact hl
  | ((delAddr, valDstAddr), entries) :: reds, (s, remaining), acc', hl, hb, h => by
    change Books s.store 0 at hb
    rw [Staking.slashRedelegations] at h
    obtain ⟨⟨s₁, amountSlashed⟩, h₁, h⟩ := Option.bind_eq_some_iff.1 h
    dsimp -zeta only at h
    extract_lets tail at h
    obtain ⟨remaining', h⟩ : ∃ r, tail r = some acc' := by
      split at h
      · exact ⟨remaining, h⟩
      · obtain ⟨r, -, h⟩ := Option.bind_eq_some_iff.1 h
        exact ⟨r, h⟩
    exact Linked.slashRedelegations (hl.slashRedelegation hb h₁)
      (hb.slashRedelegation (hooks_keepStore ctx) h₁).1 h

/-- `Slash`: the unbonding delegations and the redelegations are slashed first, the slash is
recorded when the validator has tokens, and its tokens are burned. -/
theorem Linked.slash (hl : Linked s) (hb : Books s.store 0) {power : Int64}
    (h : slash (hooks toLower permAddrs ctx) toLower permAddrs ctx s valAddr infractionHeight power
      slashFactor = some s') : Linked s' := by
  rcases slash_steps h with rfl | ⟨validator, validator₄, s₁, s₂, s₃, s₄, hv, h₁, h₂, h₃,
    ⟨tokens, h₄⟩, hs'⟩
  · exact hl
  -- the distribution keeper does nothing before a validator is modified
  cases h₁
  -- the unbonding delegations and the redelegations made since the infraction
  obtain ⟨hl₂, hv₂⟩ : Linked s₂ ∧ valAddr ∈ s₂.store.validators := by
    rcases h₂ with rfl | ⟨slashAmount, s₁', remaining₁, remaining, h₁', h₂⟩
    · exact ⟨hl, mem_of_getValidator hv⟩
    obtain ⟨⟨u, hu⟩, he⟩ := slashUnbondingDelegations_store h₁'
    simp only at hu he
    have hf₁ : Frame s₁' s := (Frame.refl s).write he (by rw [hu]) (by rw [hu])
    have hb₁ : Books s₁'.store 0 := hb.of_eq (by rw [hu]) (by rw [hu]) (by rw [hu]) (by rw [hu])
    have hv₂ := (hb₁.slashRedelegations (hooks_keepStore ctx)
      (hb₁.getRedelegationsFromSrcValidator_ne rfl) h₂).2
    have hv₁ : getValidator s₁' valAddr = some validator := by simpa [getValidator, hu] using hv
    exact ⟨Linked.slashRedelegations (hl.frame hf₁) hb₁ h₂, mem_of_getValidator (hv₂.trans hv₁)⟩
  -- the slash is recorded when the validator has tokens, then its tokens are burned
  obtain ⟨hl₃, hv₃⟩ : Linked s₃ ∧ valAddr ∈ s₃.store.validators := by
    rcases h₃ with rfl | ⟨fraction, h₃⟩
    · exact ⟨hl₂, hv₂⟩
    · exact ⟨hl₂.beforeValidatorSlashed h₃, (hooks_beforeValidatorSlashed h₃).1 ▸ hv₂⟩
  exact (hl₃.frame (updateValidator_frame hv₃ h₄)).frame (Frame.of_supply hs')

theorem Linked.jail (hl : Linked s) (h : jail s valAddr = some s') : Linked s' := by
  obtain ⟨validator, hv, h⟩ := Option.bind_eq_some_iff.1 h
  exact hl.frame (jailValidator_frame (mem_of_getValidator hv) h)

theorem Linked.handleMsgUnjail (hl : Linked s) (h : handleMsgUnjail s valAddr = some s') :
    Linked s' := by
  obtain ⟨validator, hv, h⟩ := handleMsgUnjail_steps h
  exact hl.frame (unjailValidator_frame (mem_of_getValidator hv) h)

/-! ## The end blocker -/

/-- Completing the unbonding of a mature validator, and removing it when no shares are left. -/
theorem Linked.unbondMatureValidator (hl : Linked s) (hb : Books s.store 0)
    (h : (do
      let validator ← getValidator s valAddr
      if !validator.isUnbonding then none
      else
        let (s, validator) := completeUnbondingValidator s valAddr validator
        if validator.delegatorShares.isZero then
          Staking.removeValidator (hooks toLower permAddrs ctx) s valAddr
        else some s) = some s') : Linked s' := by
  have hb' := hb.unbondMatureValidator (hooks_keepStore ctx) h
  obtain ⟨validator, hv, h⟩ := Option.bind_eq_some_iff.1 h
  split at h
  · cases h
  dsimp only [completeUnbondingValidator] at h
  have hl₁ : Linked (setValidator s valAddr { validator with status := .unbonded }) :=
    hl.frame (setValidator_frame (mem_of_getValidator hv))
  split at h
  · exact hl₁.removeValidator h hb'.delegation_validator
  · cases h
    exact hl₁

theorem Linked.unbondAllMatureValidatorQueue (hl : Linked s) (hb : Books s.store 0)
    (h : unbondAllMatureValidatorQueue (hooks toLower permAddrs ctx) ctx s = some s') :
    Linked s' := by
  refine (Ledger.foldlM_inv (fun s : Staking.State RewardsStore => Linked s ∧ Books s.store 0) _
    (fun s₁ s₂ slice hs₁ h₁ => ?_) _ s s' ⟨hl, hb⟩ h).1
  obtain ⟨s₃, h₃, h₁⟩ := Option.bind_eq_some_iff.1 h₁
  cases h₁
  -- each validator of the slice in turn, then the slice is deleted
  have hs₃ : Linked s₃ ∧ Books s₃.store 0 :=
    Ledger.foldlM_inv (fun s : Staking.State RewardsStore => Linked s ∧ Books s.store 0) _
      (fun _ _ _ hs h => ⟨hs.1.unbondMatureValidator hs.2 h,
        hs.2.unbondMatureValidator (hooks_keepStore ctx) h⟩) _ s₁ s₃ hs₁ h₃
  exact ⟨hs₃.1.frame ((Frame.refl s₃).write rfl rfl rfl), hs₃.2.of_eq rfl rfl rfl rfl⟩

theorem Linked.completeUnbonding (hl : Linked s)
    (h : completeUnbonding toLower permAddrs ctx s delAddr valAddr = some s') : Linked s' := by
  unfold Staking.completeUnbonding at h
  obtain ⟨entries, -, h⟩ := Option.bind_eq_some_iff.1 h
  obtain ⟨⟨s₁, entries₁⟩, h₁, h⟩ := Option.bind_eq_some_iff.1 h
  obtain ⟨hs₁, he₁⟩ := completeUnbondingEntries_store h₁
  have hf₁ : Frame s₁ s := Frame.of_store hs₁ he₁
  dsimp -zeta only at h
  split at h <;> cases h <;> exact hl.frame (hf₁.write rfl rfl rfl)

theorem Linked.completeRedelegation (hl : Linked s) {valSrcAddr valDstAddr : ValAddress}
    (h : completeRedelegation ctx s delAddr valSrcAddr valDstAddr = some s') : Linked s' := by
  unfold Staking.completeRedelegation at h
  obtain ⟨entries, -, h⟩ := Option.bind_eq_some_iff.1 h
  dsimp only at h
  split at h <;> cases h <;> exact hl.frame ((Frame.refl s).write rfl rfl rfl)

/-- The end blocker: the status changes write no record, a mature validator is removed only when
the books say no delegation names it, and the mature entries move coins only. -/
theorem Linked.endBlocker (hl : Linked s) (hb : Books s.store 0) {updates : List (ValAddress × Int)}
    (h : endBlocker (hooks toLower permAddrs ctx) toLower permAddrs ctx s = some (s', updates)) :
    Linked s' := by
  unfold Staking.endBlocker at h
  obtain ⟨⟨s₁, updates₁⟩, h₁, h⟩ := Option.bind_eq_some_iff.1 h
  obtain ⟨s₂, h₂, h⟩ := Option.bind_eq_some_iff.1 h
  cases h
  have hl₂ := (hl.frame (applyAndReturnValidatorSetUpdates_frame h₁)).unbondAllMatureValidatorQueue
    (hb.applyAndReturnValidatorSetUpdates (hooks_keepStore ctx) h₁) h₂
  -- the mature unbonding delegations and redelegations, each skipped when it fails
  have hl₃ := Ledger.foldl_getD_inv Linked
    (fun s (dv : AccAddress × ValAddress) => Staking.completeUnbonding toLower permAddrs ctx s dv.1 dv.2)
    (fun _ _ _ hl h => hl.completeUnbonding h) (dequeueAllMatureUBDQueue ctx s₂).2
    (dequeueAllMatureUBDQueue ctx s₂).1 (hl₂.frame ((Frame.refl s₂).write rfl rfl rfl))
  exact Ledger.foldl_getD_inv Linked
    (fun s (dvv : AccAddress × ValAddress × ValAddress) =>
      Staking.completeRedelegation ctx s dvv.1 dvv.2.1 dvv.2.2)
    (fun _ _ _ hl h => hl.completeRedelegation h) _ _
    (hl₃.frame ((Frame.refl _).write rfl rfl rfl))

/-! ## The messages -/

/-- `MsgCreateValidator`: the validator is written at a free address, the hook starts its
periods, and its operator's self-delegation follows. -/
theorem Linked.handleMsgCreateValidator (hl : Linked s) {delegatorAddress : AccAddress}
    {validatorAddress : ValAddress} {value : Coin} {minSelfDelegation : SdkInt}
    (h : handleMsgCreateValidator (hooks toLower permAddrs ctx) toLower permAddrs ctx s delegatorAddress
      validatorAddress value minSelfDelegation = some s') : Linked s' := by
  unfold Staking.handleMsgCreateValidator at h
  split at h
  · cases h
  next hfree =>
  split at h
  · cases h
  obtain ⟨s₁, h₁, h⟩ := Option.bind_eq_some_iff.1 h
  obtain ⟨s₂, h₂, h⟩ := Option.bind_eq_some_iff.1 h
  obtain ⟨⟨s₃, newShares⟩, h₃, h⟩ := Option.bind_eq_some_iff.1 h
  cases h
  obtain ⟨k, -, rfl⟩ := Option.map_eq_some_iff.1 h₁
  have hl₂ := hl.afterValidatorCreated (fun hm => hfree (AList.lookup_isSome.2 hm))
    (fun a => by exact AList.mem_insert _) (by rfl) (by rfl) h₂
  have hv₂ : validatorAddress ∈ s₂.store.validators := by
    rw [(hooks_keepStore ctx).afterValidatorCreated _ _ _ h₂]
    exact (AList.mem_insert _).2 (Or.inl rfl)
  exact hl₂.delegate hv₂ h₃

theorem Linked.handleMsgEditValidator (hl : Linked s) {validatorAddress : ValAddress}
    {minSelfDelegation : Option SdkInt}
    (h : handleMsgEditValidator s validatorAddress minSelfDelegation = some s') : Linked s' := by
  unfold Staking.handleMsgEditValidator at h
  obtain ⟨validator, hv, h⟩ := Option.bind_eq_some_iff.1 h
  split at h
  · cases h
    exact hl.frame (setValidator_frame (mem_of_getValidator hv))
  split at h
  · cases h
  split at h
  · cases h
  · cases h
    exact hl.frame (setValidator_frame (mem_of_getValidator hv))

theorem Linked.handler (hl : Linked s) (hb : Books s.store 0) {msg : Msg}
    (h : handler (hooks toLower permAddrs ctx) toLower permAddrs ctx s msg = some s') : Linked s' := by
  cases msg with
  | createValidator delegatorAddress validatorAddress value minSelfDelegation =>
    exact hl.handleMsgCreateValidator h
  | editValidator validatorAddress minSelfDelegation => exact hl.handleMsgEditValidator h
  | delegate delegatorAddress validatorAddress amount =>
    unfold Staking.handler handleMsgDelegate at h
    obtain ⟨validator, hv, h⟩ := Option.bind_eq_some_iff.1 h
    split at h
    · cases h
    obtain ⟨⟨s₁, newShares⟩, h₁, h⟩ := Option.bind_eq_some_iff.1 h
    cases h
    exact hl.delegate (mem_of_getValidator hv) h₁
  | beginRedelegate delegatorAddress validatorSrcAddress validatorDstAddress amount =>
    unfold Staking.handler handleMsgBeginRedelegate at h
    obtain ⟨shares, -, h⟩ := Option.bind_eq_some_iff.1 h
    split at h
    · cases h
    obtain ⟨⟨s₁, completionTime⟩, h₁, h⟩ := Option.bind_eq_some_iff.1 h
    cases h
    exact hl.beginRedelegation hb h₁
  | undelegate delegatorAddress validatorAddress amount =>
    unfold Staking.handler handleMsgUndelegate at h
    obtain ⟨shares, -, h⟩ := Option.bind_eq_some_iff.1 h
    split at h
    · cases h
    obtain ⟨⟨s₁, completionTime⟩, h₁, h⟩ := Option.bind_eq_some_iff.1 h
    cases h
    exact hl.undelegate hb h₁

end Keeper

/-! ## The distribution module's own writes -/

/-- A write of the distribution stores that keeps the four stores of the references. -/
theorem Linked.of_sameRefs (hl : Linked s) (hstore : s'.store = s.store)
    (hs : s'.ext.SameRefs s.ext) : Linked s' :=
  ⟨hl.counted.of_sameRefs hs, fun v => by rw [hstore, hs.currentPeriod]; exact hl.validators v,
    fun d v => by rw [hstore, hs.startingInfos]; exact hl.delegations d v⟩

/-- `MsgWithdrawDelegatorReward`: the rewards of a delegation the staking keeper holds are
withdrawn, which drops its starting info, and the delegation starts again. -/
theorem Linked.withdrawDelegatorReward (hl : Linked s) {height : Nat} {r : RewardsState}
    {rewards : Coins}
    (h : withdrawDelegatorReward toLower permAddrs blockTime ⟨s.ext, s.supply⟩ valAddr
      (Staking.getValidator s valAddr) delAddr (Staking.getDelegation s delAddr valAddr) height =
        some (r, rewards)) :
    Linked { s with ext := r.store, supply := r.supply } := by
  obtain ⟨validator, shares, r₁, -, hd, hw, hi⟩ := withdrawDelegatorReward_eq_some h
  have hstart : (valAddr, delAddr) ∈ s.ext.delegatorStartingInfos :=
    (hl.delegations delAddr valAddr).1 (AList.lookup_isSome.1 (by
      rw [show s.store.delegations.lookup (delAddr, valAddr) = some shares from hd]
      rfl))
  obtain ⟨hc₁, hf₁⟩ := hl.counted.withdrawDelegationRewards hw
  obtain ⟨hcur₁, hstart₁, -⟩ := withdrawDelegationRewards_refs hw
  obtain ⟨hcur, hstart', -⟩ := initializeDelegation_refs hi
  refine ⟨hc₁.initializeDelegation hf₁ (fun hm => ((hstart₁ _).1 hm).1 rfl) hi, fun v => ?_,
    fun d v => ?_⟩
  · show v ∈ s.store.validators ↔ v ∈ r.store.validatorCurrentPeriod
    rw [hcur, hcur₁]
    exact hl.validators v
  -- the delegation withdrawn has its starting info back, the others keep theirs
  · show (d, v) ∈ s.store.delegations ↔ (v, d) ∈ r.store.delegatorStartingInfos
    rw [hstart', hstart₁, hl.delegations]
    by_cases hk : (v, d) = (valAddr, delAddr)
    · rw [hk]
      exact ⟨fun _ => Or.inl rfl, fun _ => hstart⟩
    · simp only [hk, false_or, ne_eq, not_false_eq_true, true_and]

/-- `MsgWithdrawValidatorCommission` writes no reference. -/
theorem Linked.withdrawValidatorCommission (hl : Linked s) {r : RewardsState} {commission : Coins}
    (h : withdrawValidatorCommission toLower permAddrs blockTime ⟨s.ext, s.supply⟩ valAddr =
      some (r, commission)) :
    Linked { s with ext := r.store, supply := r.supply } :=
  hl.of_sameRefs rfl (withdrawValidatorCommission_sameRefs h)

/-! ## Every run -/

/-- What writes the distribution records: the staking operations, with the distribution hooks at
their block; `AllocateTokens` of the begin blocker, whose lookup of validators by consensus
address is an argument, as the staking keeper's index of consensus addresses is left out; and the
messages that withdraw. `MsgSetWithdrawAddress`, which writes only the withdraw addresses, and the
messages' `ValidateBasic`, which checks only that the addresses are not empty, are left out. -/
inductive Op
  | staking (op : Staking.Op)
  | allocateTokens (validatorByConsAddr : ConsAddress → Option Validator)
      (sumPreviousPrecommitPower totalPreviousPower : Int64) (previousProposer : ConsAddress)
      (previousVotes : List VoteInfo)
  | withdrawDelegatorReward (delegatorAddress : AccAddress) (validatorAddress : Staking.ValAddress)
  | withdrawValidatorCommission (validatorAddress : Staking.ValAddress)

variable (toLower permAddrs) (feeCollectorName : String)

/-- One step at the block header `ctx`; the distribution messages read the validator and the
delegation from the staking keeper, as `WithdrawDelegationRewards` does. -/
def step (ctx : Staking.Context) (s : Staking.State RewardsStore) :
    Distribution.Op → Option (Staking.State RewardsStore)
  | .staking op => Staking.step (hooks toLower permAddrs ctx) toLower permAddrs ctx s op
  | .allocateTokens validatorByConsAddr sumPreviousPrecommitPower totalPreviousPower
      previousProposer previousVotes =>
    (allocateTokens toLower permAddrs ctx.blockTime feeCollectorName validatorByConsAddr
        ⟨s.ext.toStore, s.supply⟩ sumPreviousPrecommitPower totalPreviousPower previousProposer
        previousVotes).map
      fun r => { s with ext := { s.ext with toStore := r.store }, supply := r.supply }
  | .withdrawDelegatorReward delegatorAddress validatorAddress =>
    (withdrawDelegatorReward toLower permAddrs ctx.blockTime ⟨s.ext, s.supply⟩ validatorAddress
        (Staking.getValidator s validatorAddress) delegatorAddress
        (Staking.getDelegation s delegatorAddress validatorAddress) ctx.height.toNat).map
      fun r => { s with ext := r.1.store, supply := r.1.supply }
  | .withdrawValidatorCommission validatorAddress =>
    (withdrawValidatorCommission toLower permAddrs ctx.blockTime ⟨s.ext, s.supply⟩
        validatorAddress).map
      fun r => { s with ext := r.1.store, supply := r.1.supply }

/-- A run: each step at its header; one that fails or panics leaves the state as it was. -/
def run (s : Staking.State RewardsStore) (ops : List (Staking.Context × Distribution.Op)) :
    Staking.State RewardsStore :=
  ops.foldl (fun s op => (step toLower permAddrs feeCollectorName op.1 s op.2).getD s) s

variable {toLower permAddrs feeCollectorName}

end Barkis.Distribution
