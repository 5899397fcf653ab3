import Barkis.Staking.Books
import Barkis.Staking.Handler

/-!
# The share books over every run of the staking module

`Slash`, `Jail`, the unjail message, the end blocker and every staking message keep the share
books of `Barkis.Staking.Books`, so a run from a state whose books hold ends in one whose books
hold: every validator's `DelegatorShares` is the sum of the shares of its delegations, every
delegation has positive shares, no validator has negative tokens, and the power index holds
exactly the validators that are not jailed, under the keys of their current tokens.
`slash_steps`, `handleMsgUnjail_steps` and `applyAndReturnValidatorSetUpdates_steps` say once what
`Slash`, the unjail message and the update of the validator set do.
-/

namespace Barkis.Staking

open Bank Supply

variable {σ : Type} {hooks : Hooks σ} {toLower : String → String}
  {permAddrs : String → Option PermissionsForAddress} {ctx : Context} {s s' : State σ}
  {delAddr : AccAddress} {valAddr : ValAddress} {infractionHeight : Int} {slashFactor : Dec}

/-! ## `Slash` -/

/-- Slashing an unbonding delegation writes its entries and burns coins. -/
theorem slashUnbondingDelegation_store {entries : List UnbondingDelegationEntry} {total : SdkInt}
    (h : slashUnbondingDelegation toLower permAddrs ctx s delAddr valAddr entries infractionHeight
      slashFactor = some (s', total)) :
    (∃ ubds, s'.store = { s.store with unbondingDelegations := ubds }) ∧ s'.ext = s.ext := by
  unfold slashUnbondingDelegation at h
  obtain ⟨⟨entries', total', burned⟩, -, h⟩ := Option.bind_eq_some_iff.1 h
  obtain ⟨s₁, h₁, h⟩ := Option.bind_eq_some_iff.1 h
  cases h
  rw [burnPoolTokens_supply h₁]
  exact ⟨⟨_, rfl⟩, rfl⟩

theorem slashUnbondingDelegations_store :
    ∀ {ubds : List (AccAddress × List UnbondingDelegationEntry)} {acc acc' : State σ × SdkInt},
      slashUnbondingDelegations toLower permAddrs ctx valAddr infractionHeight slashFactor acc ubds =
        some acc' →
      (∃ u, acc'.1.store = { acc.1.store with unbondingDelegations := u }) ∧ acc'.1.ext = acc.1.ext
  | [], _, _, h => by
    cases h
    exact ⟨⟨_, rfl⟩, rfl⟩
  | (delAddr, entries) :: ubds, (s, remaining), acc', h => by
    rw [slashUnbondingDelegations] at h
    obtain ⟨⟨s₁, amountSlashed⟩, h₁, h⟩ := Option.bind_eq_some_iff.1 h
    dsimp -zeta only at h
    extract_lets tail at h
    obtain ⟨remaining', h⟩ : ∃ r, tail r = some acc' := by
      split at h
      · exact ⟨remaining, h⟩
      · obtain ⟨r, -, h⟩ := Option.bind_eq_some_iff.1 h
        exact ⟨r, h⟩
    obtain ⟨⟨u₁, hu₁⟩, he₁⟩ := slashUnbondingDelegation_store h₁
    obtain ⟨⟨u, hu⟩, he⟩ := slashUnbondingDelegations_store h
    exact ⟨⟨u, by rw [hu, hu₁]⟩, he.trans he₁⟩

/-- The loop over a redelegation's entries unbonds from its destination only. -/
theorem Books.slashRedelegationEntries (hh : hooks.KeepStore) {valDstAddr : ValAddress} :
    ∀ {entries : List RedelegationEntry} {acc acc' : State σ × SdkInt × SdkInt × SdkInt},
      Books acc.1.store 0 →
      slashRedelegationEntries hooks ctx delAddr valDstAddr infractionHeight slashFactor acc
        entries = some acc' →
      Books acc'.1.store 0 ∧ ∀ a, a ≠ valDstAddr → getValidator acc'.1 a = getValidator acc.1 a
  | [], _, _, hb, h => by
    cases h
    exact ⟨hb, fun _ _ => rfl⟩
  | entry :: entries, (s, total, bondedBurned, notBondedBurned), acc', hb, h => by
    change Books s.store 0 at hb
    show Books acc'.1.store 0 ∧ ∀ a, a ≠ valDstAddr → getValidator acc'.1 a = getValidator s a
    rw [Staking.slashRedelegationEntries] at h
    split at h
    · exact Books.slashRedelegationEntries hh hb h
    obtain ⟨slashAmount, -, h⟩ := Option.bind_eq_some_iff.1 h
    obtain ⟨total', -, h⟩ := Option.bind_eq_some_iff.1 h
    obtain ⟨sharesToUnbond, -, h⟩ := Option.bind_eq_some_iff.1 h
    split at h
    · exact Books.slashRedelegationEntries hh hb h
    split at h
    · exact Books.slashRedelegationEntries hh hb h
    obtain ⟨⟨s₁, tokensToBurn⟩, h₁, h⟩ := Option.bind_eq_some_iff.1 h
    obtain ⟨hb₁, -, hframe₁⟩ := hb.unbond hh h₁
    obtain ⟨dstValidator, -, h⟩ := Option.bind_eq_some_iff.1 h
    -- the rest of the loop, from the state after the unbond
    have hrest : ∀ acc, acc.1 = s₁ → Staking.slashRedelegationEntries hooks ctx delAddr valDstAddr
        infractionHeight slashFactor acc entries = some acc' →
        Books acc'.1.store 0 ∧ ∀ a, a ≠ valDstAddr → getValidator acc'.1 a = getValidator s a := by
      rintro acc rfl hacc
      obtain ⟨hb', hframe'⟩ := Books.slashRedelegationEntries hh hb₁ hacc
      exact ⟨hb', fun a ha => (hframe' a ha).trans (hframe₁ a ha)⟩
    split at h
    · obtain ⟨bondedBurned', -, h⟩ := Option.bind_eq_some_iff.1 h
      exact hrest _ rfl h
    · obtain ⟨notBondedBurned', -, h⟩ := Option.bind_eq_some_iff.1 h
      exact hrest _ rfl h

theorem Books.slashRedelegation (hh : hooks.KeepStore) (hb : Books s.store 0)
    {valDstAddr : ValAddress} {entries : List RedelegationEntry} {total : SdkInt}
    (h : slashRedelegation hooks toLower permAddrs ctx s delAddr valDstAddr entries infractionHeight
      slashFactor = some (s', total)) :
    Books s'.store 0 ∧ ∀ a, a ≠ valDstAddr → getValidator s' a = getValidator s a := by
  unfold Staking.slashRedelegation at h
  obtain ⟨⟨s₁, total₁, bonded, notBonded⟩, h₁, h⟩ := Option.bind_eq_some_iff.1 h
  obtain ⟨hb₁, hframe₁⟩ := Books.slashRedelegationEntries hh hb h₁
  dsimp only at h
  obtain ⟨s₂, h₂, h⟩ := Option.bind_eq_some_iff.1 h
  obtain ⟨s₃, h₃, h⟩ := Option.bind_eq_some_iff.1 h
  cases h
  have hs' : s'.store = s₁.store := (burnPoolTokens_store h₃).trans (burnPoolTokens_store h₂)
  refine ⟨hs' ▸ hb₁, fun a ha => ?_⟩
  rw [← hframe₁ a ha]
  simp [getValidator, hs']

/-- The loop over the redelegations from a validator, each to another validator, keeps the books
and the validator. -/
theorem Books.slashRedelegations (hh : hooks.KeepStore) :
    ∀ {reds : List ((AccAddress × ValAddress) × List RedelegationEntry)}
      {acc acc' : State σ × SdkInt}, (∀ red ∈ reds, red.1.2 ≠ valAddr) → Books acc.1.store 0 →
      slashRedelegations hooks toLower permAddrs ctx infractionHeight slashFactor acc reds =
        some acc' →
      Books acc'.1.store 0 ∧ getValidator acc'.1 valAddr = getValidator acc.1 valAddr
  | [], _, _, _, hb, h => by
    cases h
    exact ⟨hb, rfl⟩
  | ((delAddr, valDstAddr), entries) :: reds, (s, remaining), acc', hne, hb, h => by
    rw [Staking.slashRedelegations] at h
    obtain ⟨⟨s₁, amountSlashed⟩, h₁, h⟩ := Option.bind_eq_some_iff.1 h
    dsimp -zeta only at h
    extract_lets tail at h
    obtain ⟨remaining', h⟩ : ∃ r, tail r = some acc' := by
      split at h
      · exact ⟨remaining, h⟩
      · obtain ⟨r, -, h⟩ := Option.bind_eq_some_iff.1 h
        exact ⟨r, h⟩
    obtain ⟨hb₁, hframe₁⟩ := hb.slashRedelegation hh h₁
    obtain ⟨hb', hv'⟩ :=
      Books.slashRedelegations hh (fun red hred => hne red (List.mem_cons_of_mem _ hred)) hb₁ h
    exact ⟨hb', hv'.trans (hframe₁ valAddr (hne _ List.mem_cons_self).symm)⟩

/-- Redelegations from a validator go to other validators. -/
theorem Books.getRedelegationsFromSrcValidator_ne {st : Store} {owed : ValAddress → Int}
    (hb : Books st owed) {s : State σ} (hs : s.store = st) :
    ∀ red ∈ getRedelegationsFromSrcValidator s valAddr, red.1.2 ≠ valAddr := by
  intro red hred
  simp only [getRedelegationsFromSrcValidator, List.mem_insertionSort, List.mem_map,
    List.mem_filter, beq_iff_eq] at hred
  obtain ⟨e, ⟨he, hsrc⟩, rfl⟩ := hred
  have hl : st.redelegations.lookup e.1 = some e.2 := AList.mem_lookup_iff.2 (hs ▸ he)
  simpa [hsrc] using (hb.redelegation_ne e.1 e.2 hl).symm

/-- `RemoveValidatorTokens` takes tokens the validator holds and keeps the books. -/
theorem Books.removeValidatorTokens {owed : ValAddress → Int} (hb : Books s.store owed)
    {validator validator' : Validator} {tokens : SdkInt}
    (hv : getValidator s valAddr = some validator)
    (h : removeValidatorTokens s valAddr validator tokens = some (s', validator', ())) :
    Books s'.store owed := by
  obtain ⟨hc, -⟩ := updateValidator_spec h
  obtain ⟨v, hv', hvv⟩ := Option.map_eq_some_iff.1 hc
  cases hvv
  obtain ⟨tokens', rfl, ht, h0, hle⟩ := Validator.removeTokens_spec hv'
  have hv₀ : s.store.validators.lookup valAddr = some validator := hv
  have hb' := hb.updateValidator hv h (by simp only; omega) (by
    have := hb.tokens_le_shares _ _ hv₀
    simp only
    omega)
  simpa using hb'

/-- The steps of a `Slash` that changes the state: the validator is stored and the hook before
it is modified runs; unless the infraction is at the current height, the unbonding delegations
and then the redelegations made since are slashed; the hook that records the slash runs when the
validator has tokens; and the tokens burned are removed from the validator, then from its pool,
which writes the supply only. -/
theorem slash_steps {power : Int64}
    (h : slash hooks toLower permAddrs ctx s valAddr infractionHeight power slashFactor = some s') :
    s' = s ∨ ∃ (validator validator₄ : Validator) (s₁ s₂ s₃ s₄ : State σ),
      getValidator s valAddr = some validator ∧
      hooks.beforeValidatorModified s valAddr = some s₁ ∧
      (s₂ = s₁ ∨ ∃ slashAmount s₁' remaining₁ remaining,
        slashUnbondingDelegations toLower permAddrs ctx valAddr infractionHeight slashFactor
          (s₁, slashAmount) (getUnbondingDelegationsFromValidator s₁ valAddr) =
            some (s₁', remaining₁) ∧
        slashRedelegations hooks toLower permAddrs ctx infractionHeight slashFactor
          (s₁', remaining₁) (getRedelegationsFromSrcValidator s₁' valAddr) = some (s₂, remaining)) ∧
      (s₃ = s₂ ∨ ∃ fraction, hooks.beforeValidatorSlashed s₂ valAddr fraction = some s₃) ∧
      (∃ tokens, removeValidatorTokens s₃ valAddr validator tokens = some (s₄, validator₄, ())) ∧
      s' = { s₄ with supply := s'.supply } := by
  unfold Staking.slash at h
  split at h
  · cases h
  obtain ⟨amount, -, h⟩ := Option.bind_eq_some_iff.1 h
  obtain ⟨slashAmount, -, h⟩ := Option.bind_eq_some_iff.1 h
  split at h
  · cases h
    exact Or.inl rfl
  next validator hv =>
  split at h
  · cases h
  obtain ⟨s₁, h₁, h⟩ := Option.bind_eq_some_iff.1 h
  extract_lets tail at h
  obtain ⟨s₂, remaining, h₂, h⟩ : ∃ s₂ remaining,
      (s₂ = s₁ ∨ ∃ slashAmount s₁' remaining₁ remaining',
        slashUnbondingDelegations toLower permAddrs ctx valAddr infractionHeight slashFactor
          (s₁, slashAmount) (getUnbondingDelegationsFromValidator s₁ valAddr) =
            some (s₁', remaining₁) ∧
        slashRedelegations hooks toLower permAddrs ctx infractionHeight slashFactor
          (s₁', remaining₁) (getRedelegationsFromSrcValidator s₁' valAddr) =
            some (s₂, remaining')) ∧ tail (s₂, remaining) = some s' := by
    split at h
    · cases h
    split at h
    · exact ⟨s₁, slashAmount, Or.inl rfl, h⟩
    obtain ⟨⟨s₁', remaining₁⟩, h₁', h⟩ := Option.bind_eq_some_iff.1 h
    obtain ⟨⟨s₂, remaining₂⟩, h₂, h⟩ := Option.bind_eq_some_iff.1 h
    exact ⟨s₂, remaining₂, Or.inr ⟨slashAmount, s₁', remaining₁, remaining₂, h₁', h₂⟩, h⟩
  simp only [tail] at h
  obtain ⟨s₃, h₃, h⟩ : ∃ s₃,
      (s₃ = s₂ ∨ ∃ fraction, hooks.beforeValidatorSlashed s₂ valAddr fraction = some s₃) ∧
      (removeValidatorTokens s₃ valAddr validator
          ((remaining.minInt validator.tokens).maxInt SdkInt.zeroInt) >>= fun r =>
        if r.2.1.isBonded = true then
          burnBondedTokens toLower permAddrs ctx.blockTime r.1
            ((remaining.minInt validator.tokens).maxInt SdkInt.zeroInt)
        else burnNotBondedTokens toLower permAddrs ctx.blockTime r.1
          ((remaining.minInt validator.tokens).maxInt SdkInt.zeroInt)) = some s' := by
    split at h
    · obtain ⟨fraction, -, h⟩ := Option.bind_eq_some_iff.1 h
      obtain ⟨s₃, h₃, h⟩ := Option.bind_eq_some_iff.1 h
      exact ⟨s₃, Or.inr ⟨_, h₃⟩, h⟩
    · exact ⟨s₂, Or.inl rfl, h⟩
  obtain ⟨⟨s₄, validator₄, ⟨⟩⟩, h₄, h⟩ := Option.bind_eq_some_iff.1 h
  refine Or.inr ⟨validator, validator₄, s₁, s₂, s₃, s₄, hv, h₁, h₂, h₃, ⟨_, h₄⟩, ?_⟩
  -- the pool burned from is the validator's, by its status after the removal
  split at h <;> exact burnPoolTokens_supply h

theorem Books.slash (hh : hooks.KeepStore) (hb : Books s.store 0) {power : Int64}
    (h : slash hooks toLower permAddrs ctx s valAddr infractionHeight power slashFactor = some s') :
    Books s'.store 0 := by
  rcases slash_steps h with rfl | ⟨validator, validator₄, s₁, s₂, s₃, s₄, hv, h₁, h₂, h₃,
    ⟨tokens, h₄⟩, hs'⟩
  · exact hb
  have hs₁ := hh.beforeValidatorModified _ _ _ h₁
  have hb₁ : Books s₁.store 0 := hs₁ ▸ hb
  have hv₁ : getValidator s₁ valAddr = some validator := by simpa [getValidator, hs₁] using hv
  -- the unbonding delegations and the redelegations made since the infraction
  obtain ⟨hb₂, hv₂⟩ : Books s₂.store 0 ∧ getValidator s₂ valAddr = some validator := by
    rcases h₂ with rfl | ⟨slashAmount, s₁', remaining₁, remaining, h₁', h₂⟩
    · exact ⟨hb₁, hv₁⟩
    obtain ⟨⟨u, hu⟩, -⟩ := slashUnbondingDelegations_store h₁'
    simp only at hu
    have hb₁' : Books s₁'.store 0 := hb₁.of_eq (by rw [hu]) (by rw [hu]) (by rw [hu]) (by rw [hu])
    have hv₁' : getValidator s₁' valAddr = some validator := by simpa [getValidator, hu] using hv₁
    obtain ⟨hb₂, hv₂⟩ := Books.slashRedelegations hh (hb₁'.getRedelegationsFromSrcValidator_ne rfl)
      hb₁' h₂
    exact ⟨hb₂, hv₂.trans hv₁'⟩
  -- the validator's own tokens
  have hs₃ : s₃.store = s₂.store := by
    rcases h₃ with rfl | ⟨fraction, h₃⟩
    · rfl
    · exact hh.beforeValidatorSlashed _ _ _ _ h₃
  have hv₃ : getValidator s₃ valAddr = some validator := by simpa [getValidator, hs₃] using hv₂
  have hb₄ := (hs₃ ▸ hb₂ : Books s₃.store 0).removeValidatorTokens hv₃ h₄
  rw [hs']
  exact hb₄

/-! ## `Jail` and `Unjail` -/

theorem Books.jail (hb : Books s.store 0) (h : jail s valAddr = some s') : Books s'.store 0 := by
  obtain ⟨validator, hv, h⟩ := Option.bind_eq_some_iff.1 h
  exact hb.jailValidator hv h

/-- The checks of `handleMsgUnjail` pass, and the validator it looks up again is unjailed. -/
theorem handleMsgUnjail_steps (h : handleMsgUnjail s valAddr = some s') :
    ∃ validator, getValidator s valAddr = some validator ∧
      unjailValidator s valAddr validator = some s' := by
  unfold Staking.handleMsgUnjail at h
  obtain ⟨validator, -, h⟩ := Option.bind_eq_some_iff.1 h
  obtain ⟨selfDel, -, h⟩ := Option.bind_eq_some_iff.1 h
  obtain ⟨tokens, -, h⟩ := Option.bind_eq_some_iff.1 h
  split at h
  · cases h
  split at h
  · cases h
  exact Option.bind_eq_some_iff.1 h

theorem Books.handleMsgUnjail (hb : Books s.store 0) (h : handleMsgUnjail s valAddr = some s') :
    Books s'.store 0 := by
  obtain ⟨validator, hv, h⟩ := handleMsgUnjail_steps h
  exact hb.unjailValidator hv h

/-! ## The end blocker -/

section EndBlock

variable {addr : ValAddress} {validator validator' : Validator} {owed : ValAddress → Int}

/-- A change of a validator that keeps its tokens and shares keeps the books. -/
theorem Books.updateValidator_of_tokens {α : Type} {change : Validator → Option (Validator × α)}
    {r : α} (hb : Books s.store owed) (hv : getValidator s addr = some validator)
    (h : Staking.updateValidator s addr validator change = some (s', validator', r))
    (hc : ∀ v v' r, change v = some (v', r) →
      v'.tokens = v.tokens ∧ v'.delegatorShares = v.delegatorShares) :
    Books s'.store owed := by
  have hv₀ : s.store.validators.lookup addr = some validator := hv
  obtain ⟨hT, hS⟩ := hc _ _ _ (updateValidator_spec h).1
  have hb' := hb.updateValidator hv h (hT ▸ hb.tokens_nonneg _ _ hv₀)
    (hT ▸ hS ▸ hb.tokens_le_shares _ _ hv₀)
  rwa [hS, sub_self, add_zero, Function.update_eq_self] at hb'

theorem Books.bondValidator (hh : hooks.KeepStore) (hb : Books s.store 0)
    (hv : getValidator s addr = some validator)
    (h : bondValidator hooks s addr validator = some (s', validator')) : Books s'.store 0 := by
  unfold Staking.bondValidator at h
  obtain ⟨⟨s₁, validator₁, u⟩, h₁, h⟩ := Option.bind_eq_some_iff.1 h
  obtain ⟨s₂, h₂, h⟩ := Option.bind_eq_some_iff.1 h
  cases h
  have hb₁ := hb.updateValidator_of_tokens hv h₁ fun v v' r hc => by
    cases hc
    exact ⟨rfl, rfl⟩
  rw [hh.afterValidatorBonded _ _ _ h₂]
  exact hb₁.of_eq rfl rfl rfl rfl

theorem Books.beginUnbondingValidator (hh : hooks.KeepStore) (hb : Books s.store 0)
    (hv : getValidator s addr = some validator)
    (h : beginUnbondingValidator hooks ctx s addr validator = some (s', validator')) :
    Books s'.store 0 := by
  unfold Staking.beginUnbondingValidator at h
  obtain ⟨⟨s₁, validator₁, u⟩, h₁, h⟩ := Option.bind_eq_some_iff.1 h
  obtain ⟨s₂, h₂, h⟩ := Option.bind_eq_some_iff.1 h
  cases h
  have hb₁ := hb.updateValidator_of_tokens hv h₁ fun v v' r hc => by
    split at hc
    · cases hc
    · cases hc
      exact ⟨rfl, rfl⟩
  rw [hh.afterValidatorBeginUnbonding _ _ _ h₂]
  exact hb₁.of_eq rfl rfl rfl rfl

/-- The loop over the power index keeps the books. -/
theorem Books.applyValidators (hh : hooks.KeepStore) {maxValidators : Nat} :
    ∀ {l : List (List UInt8 × ValAddress)} {count : Nat} {acc acc' : SetUpdate σ},
      Books acc.state.store 0 → applyValidators hooks maxValidators count acc l = some acc' →
      Books acc'.state.store 0
  | [], _, _, _, hb, h => by
    cases h
    exact hb
  | (_, valAddr) :: rest, count, acc, acc', hb, h => by
    rw [Staking.applyValidators] at h
    split at h
    · cases h
      exact hb
    obtain ⟨validator, hv, h⟩ := Option.bind_eq_some_iff.1 h
    split at h
    · cases h
    obtain ⟨power, -, h⟩ := Option.bind_eq_some_iff.1 h
    split at h
    · cases h
      exact hb
    extract_lets tail at h
    -- a validator not bonded is bonded first
    obtain ⟨⟨s₁, validator₁, notBondedToBonded⟩, hb₁, h⟩ :
        ∃ r : State σ × Validator × SdkInt, Books r.1.store 0 ∧ tail r = some acc' := by
      split at h
      next =>
        obtain ⟨⟨s₂, validator₂⟩, h₂, h⟩ := Option.bind_eq_some_iff.1 h
        obtain ⟨n, -, h⟩ := Option.bind_eq_some_iff.1 h
        exact ⟨(s₂, validator₂, n), hb.bondValidator hh hv h₂, h⟩
      next =>
        obtain ⟨⟨s₂, validator₂⟩, h₂, h⟩ := Option.bind_eq_some_iff.1 h
        obtain ⟨n, -, h⟩ := Option.bind_eq_some_iff.1 h
        exact ⟨(s₂, validator₂, n), hb.bondValidator hh hv h₂, h⟩
      next => exact ⟨(acc.state, validator, acc.notBondedToBonded), hb, h⟩
    simp only [tail] at h
    obtain ⟨newPower, -, h⟩ := Option.bind_eq_some_iff.1 h
    split at h
    · exact Books.applyValidators hh hb₁ h
    · exact Books.applyValidators hh (hb₁.of_eq rfl rfl rfl rfl) h

/-- The loop over the validators that left the set keeps the books. -/
theorem Books.unbondNoLongerBonded (hh : hooks.KeepStore) :
    ∀ {l : List ValAddress} {acc acc' : State σ × List (ValAddress × Int) × SdkInt},
      Books acc.1.store 0 → unbondNoLongerBonded hooks ctx acc l = some acc' →
      Books acc'.1.store 0
  | [], _, _, hb, h => by
    cases h
    exact hb
  | valAddr :: rest, acc, acc', hb, h => by
    rw [Staking.unbondNoLongerBonded] at h
    obtain ⟨validator, hv, h⟩ := Option.bind_eq_some_iff.1 h
    split at h
    · cases h
    obtain ⟨⟨s₁, validator₁⟩, h₁, h⟩ := Option.bind_eq_some_iff.1 h
    obtain ⟨n, -, h⟩ := Option.bind_eq_some_iff.1 h
    exact Books.unbondNoLongerBonded hh ((hb.beginUnbondingValidator hh hv h₁).of_eq rfl rfl rfl rfl) h

/-- The steps of `ApplyAndReturnValidatorSetUpdates`: the loop over the power index, the loop
over the validators that left the set, one transfer between the pools, which writes the supply
only, and the write of the last total power. -/
theorem applyAndReturnValidatorSetUpdates_steps {updates : List (ValAddress × Int)}
    (h : applyAndReturnValidatorSetUpdates hooks toLower permAddrs ctx s = some (s', updates)) :
    ∃ (acc : SetUpdate σ) (s₂ s₃ : State σ) (updates₂ : List (ValAddress × Int))
      (bondedToNotBonded : SdkInt),
      applyValidators hooks s.store.params.maxValidators 0
        ⟨s, s.store.lastValidatorPowers, [], 0, SdkInt.zeroInt⟩ (powerIndexDescending s) = some acc ∧
      unbondNoLongerBonded hooks ctx (acc.state, acc.updates, SdkInt.zeroInt)
        (acc.last.keys.insertionSort fun a b => decide (a ≤ b)) =
          some (s₂, updates₂, bondedToNotBonded) ∧
      s₃ = { s₂ with supply := s₃.supply } ∧
      s'.ext = s₃.ext ∧ s'.store.validators = s₃.store.validators ∧
      s'.store.delegations = s₃.store.delegations ∧
      s'.store.validatorsByPower = s₃.store.validatorsByPower ∧
      s'.store.redelegations = s₃.store.redelegations := by
  unfold Staking.applyAndReturnValidatorSetUpdates at h
  obtain ⟨acc, h₁, h⟩ := Option.bind_eq_some_iff.1 h
  obtain ⟨⟨s₂, updates₂, bondedToNotBonded⟩, h₂, h⟩ := Option.bind_eq_some_iff.1 h
  dsimp -zeta only at h
  extract_lets tail at h
  -- the pools are settled by one transfer
  obtain ⟨s₃, hs₃, h⟩ : ∃ s₃, s₃ = { s₂ with supply := s₃.supply } ∧
      tail s₃ = some (s', updates) := by
    split at h
    · obtain ⟨amount, -, h⟩ := Option.bind_eq_some_iff.1 h
      obtain ⟨s₃, h₃, h⟩ := Option.bind_eq_some_iff.1 h
      exact ⟨s₃, transferPoolTokens_supply h₃, h⟩
    split at h
    · obtain ⟨amount, -, h⟩ := Option.bind_eq_some_iff.1 h
      obtain ⟨s₃, h₃, h⟩ := Option.bind_eq_some_iff.1 h
      exact ⟨s₃, transferPoolTokens_supply h₃, h⟩
    · exact ⟨s₂, rfl, h⟩
  simp only [tail] at h
  cases h
  refine ⟨acc, s₂, s₃, _, bondedToNotBonded, h₁, h₂, hs₃, ?_⟩
  -- the last total power is written when the set changed
  split <;> exact ⟨rfl, rfl, rfl, rfl, rfl⟩

theorem Books.applyAndReturnValidatorSetUpdates (hh : hooks.KeepStore) (hb : Books s.store 0)
    {updates : List (ValAddress × Int)}
    (h : applyAndReturnValidatorSetUpdates hooks toLower permAddrs ctx s = some (s', updates)) :
    Books s'.store 0 := by
  obtain ⟨acc, s₂, s₃, updates₂, bondedToNotBonded, h₁, h₂, hs₃, -, hv, hd, hi, hr⟩ :=
    applyAndReturnValidatorSetUpdates_steps h
  have hb₂ : Books s₂.store 0 := Books.unbondNoLongerBonded hh (Books.applyValidators hh hb h₁) h₂
  have hb₃ : Books s₃.store 0 := by
    rw [hs₃]
    exact hb₂
  exact hb₃.of_eq hv hd hi hr

/-- Completing the unbonding of a mature validator, and removing it when no shares are left,
keeps the books. -/
theorem Books.unbondMatureValidator (hh : hooks.KeepStore) {valAddr : ValAddress}
    (hb : Books s.store 0)
    (h : (do
      let validator ← getValidator s valAddr
      if !validator.isUnbonding then none
      else
        let (s, validator) := completeUnbondingValidator s valAddr validator
        if validator.delegatorShares.isZero then Staking.removeValidator hooks s valAddr
        else some s) =
      some s') : Books s'.store 0 := by
  obtain ⟨validator, hv, h⟩ := Option.bind_eq_some_iff.1 h
  split at h
  · cases h
  dsimp only [completeUnbondingValidator] at h
  have hb₁ : Books (Staking.setValidator s valAddr { validator with status := .unbonded }).store 0 :=
    hb.setValidator hv rfl rfl rfl
  by_cases hz : validator.delegatorShares.isZero = true
  · rw [if_pos hz] at h
    refine hb₁.removeValidator hh (fun v hv' => ?_) rfl h
    simp only [getValidator, Staking.setValidator, State.modify_store, AList.lookup_insert,
      Option.some.injEq] at hv'
    subst hv'
    simpa using hz
  · rw [if_neg hz] at h
    cases h
    exact hb₁

theorem Books.unbondAllMatureValidatorQueue (hh : hooks.KeepStore) (hb : Books s.store 0)
    (h : unbondAllMatureValidatorQueue hooks ctx s = some s') : Books s'.store 0 := by
  refine Ledger.foldlM_inv (fun s : State σ => Books s.store 0) _ (fun s₁ s₂ slice hb₁ h₁ => ?_)
    _ s s' hb h
  obtain ⟨s₃, h₃, h₁⟩ := Option.bind_eq_some_iff.1 h₁
  cases h₁
  have hb₃ : Books s₃.store 0 :=
    Ledger.foldlM_inv (fun s : State σ => Books s.store 0) _
      (fun _ _ _ hb h => Books.unbondMatureValidator hh hb h) _ s₁ s₃ hb₁ h₃
  exact hb₃.of_eq rfl rfl rfl rfl

theorem Books.endBlocker (hh : hooks.KeepStore) (hb : Books s.store 0)
    {updates : List (ValAddress × Int)}
    (h : endBlocker hooks toLower permAddrs ctx s = some (s', updates)) : Books s'.store 0 := by
  unfold Staking.endBlocker at h
  obtain ⟨⟨s₁, updates₁⟩, h₁, h⟩ := Option.bind_eq_some_iff.1 h
  obtain ⟨s₂, h₂, h⟩ := Option.bind_eq_some_iff.1 h
  cases h
  have hb₂ := (hb.applyAndReturnValidatorSetUpdates hh h₁).unbondAllMatureValidatorQueue hh h₂
  -- the mature unbonding delegations and redelegations, each skipped when it fails
  have hb₃ := Ledger.foldl_getD_inv (fun s : State σ => Books s.store 0)
    (fun s (dv : AccAddress × ValAddress) => Staking.completeUnbonding toLower permAddrs ctx s dv.1 dv.2)
    (fun _ _ _ hb h => hb.completeUnbonding h) (dequeueAllMatureUBDQueue ctx s₂).2
    (dequeueAllMatureUBDQueue ctx s₂).1 (hb₂.of_eq rfl rfl rfl rfl)
  exact Ledger.foldl_getD_inv (fun s : State σ => Books s.store 0)
    (fun s (dvv : AccAddress × ValAddress × ValAddress) => Staking.completeRedelegation ctx s dvv.1 dvv.2.1 dvv.2.2)
    (fun _ _ _ hb h => hb.completeRedelegation h) _ _ (hb₃.of_eq rfl rfl rfl rfl)

end EndBlock

/-! ## The messages -/

section Messages

variable {addr : ValAddress} {validator : Validator}

/-- A new validator with no tokens and no shares, not jailed, written at a free address of
`sdk.AddrLen` bytes and indexed by its power: no delegation names the address, so the books
hold. -/
theorem Books.setNewValidator (hb : Books s.store 0) (hfree : getValidator s addr = none)
    (hlen : addr.length = addrLen) (hT : validator.tokens.i = 0)
    (hS : validator.delegatorShares.int = 0) (hj : validator.jailed = false)
    (h : setNewValidatorByPowerIndex (Staking.setValidator s addr validator) addr validator =
      some s') : Books s'.store 0 := by
  obtain ⟨k, hk, rfl⟩ := Option.map_eq_some_iff.1 h
  have hfree' : s.store.validators.lookup addr = none := hfree
  have h0 : delegatedShares s.store.delegations addr = 0 := by
    refine Ledger.total_eq_zero _ _ fun key shares hd => ?_
    have hmem := hb.delegation_validator key shares hd
    split_ifs with hkey
    · rw [hkey] at hmem
      exact absurd hmem (AList.lookup_eq_none.1 hfree')
    · rfl
  refine ⟨hb.index.insert_of_unindexed keyInjective hlen (hb.index.unindexed_of_none hfree') hj hk,
    fun a v ha => ?_, fun a v ha => ?_, fun a v ha => ?_, hb.delegation_pos,
    fun key shares hd => ?_, hb.redelegation_ne⟩
  · change (s.store.validators.insert addr validator).lookup a = some v at ha
    rw [Ledger.lookup_insert_ite] at ha
    split_ifs at ha
    · cases ha
      omega
    · exact hb.tokens_nonneg a v ha
  · change (s.store.validators.insert addr validator).lookup a = some v at ha
    rw [Ledger.lookup_insert_ite] at ha
    split_ifs at ha
    · cases ha
      omega
    · exact hb.tokens_le_shares a v ha
  · change (s.store.validators.insert addr validator).lookup a = some v at ha
    rw [Ledger.lookup_insert_ite] at ha
    split_ifs at ha with hα
    · cases ha
      subst hα
      rw [Pi.zero_apply, add_zero, hS]
      exact h0.symm
    · exact hb.shares_eq a v ha
  · exact (AList.mem_insert _).2 (Or.inr (hb.delegation_validator key shares hd))

theorem Books.handleMsgCreateValidator (hh : hooks.KeepStore) (hb : Books s.store 0)
    {delegatorAddress : AccAddress} {validatorAddress : ValAddress} {value : Coin}
    {minSelfDelegation : SdkInt} (hlen : validatorAddress.length = addrLen)
    (ha : 0 < value.amount.i)
    (h : handleMsgCreateValidator hooks toLower permAddrs ctx s delegatorAddress validatorAddress value
      minSelfDelegation = some s') : Books s'.store 0 := by
  unfold Staking.handleMsgCreateValidator at h
  split at h
  · cases h
  next hfree =>
  split at h
  · cases h
  obtain ⟨s₁, h₁, h⟩ := Option.bind_eq_some_iff.1 h
  have hb₁ := hb.setNewValidator (by simpa using hfree) hlen rfl rfl rfl h₁
  obtain ⟨s₂, h₂, h⟩ := Option.bind_eq_some_iff.1 h
  have hs₂ := hh.afterValidatorCreated _ _ _ h₂
  obtain ⟨⟨s₃, newShares⟩, h₃, h⟩ := Option.bind_eq_some_iff.1 h
  cases h
  -- the new validator is stored, so the self-delegation goes to it
  have hv₂ : getValidator s₂ validatorAddress = some { newValidator with minSelfDelegation } := by
    obtain ⟨k, -, rfl⟩ := Option.map_eq_some_iff.1 h₁
    simp [getValidator, hs₂, Staking.setValidator]
  exact ((hs₂ ▸ hb₁ : Books s₂.store 0).delegate hh hv₂ ha h₃).1

theorem Books.handleMsgEditValidator (hb : Books s.store 0) {validatorAddress : ValAddress}
    {minSelfDelegation : Option SdkInt}
    (h : handleMsgEditValidator s validatorAddress minSelfDelegation = some s') :
    Books s'.store 0 := by
  unfold Staking.handleMsgEditValidator at h
  obtain ⟨validator, hv, h⟩ := Option.bind_eq_some_iff.1 h
  split at h
  · cases h
    exact hb.setValidator hv rfl rfl rfl
  split at h
  · cases h
  split at h
  · cases h
  · cases h
    exact hb.setValidator hv rfl rfl rfl

theorem Books.handleMsgDelegate (hh : hooks.KeepStore) (hb : Books s.store 0)
    {delegatorAddress : AccAddress} {validatorAddress : ValAddress} {amount : Coin}
    (ha : 0 < amount.amount.i)
    (h : handleMsgDelegate hooks toLower permAddrs ctx s delegatorAddress validatorAddress amount =
      some s') : Books s'.store 0 := by
  unfold Staking.handleMsgDelegate at h
  obtain ⟨validator, hv, h⟩ := Option.bind_eq_some_iff.1 h
  split at h
  · cases h
  obtain ⟨⟨s₁, newShares⟩, h₁, h⟩ := Option.bind_eq_some_iff.1 h
  cases h
  exact (hb.delegate hh hv ha h₁).1

theorem Books.handleMsgUndelegate (hh : hooks.KeepStore) (hb : Books s.store 0)
    {delegatorAddress : AccAddress} {validatorAddress : ValAddress} {amount : Coin}
    (h : handleMsgUndelegate hooks toLower permAddrs ctx s delegatorAddress validatorAddress amount =
      some s') : Books s'.store 0 := by
  unfold Staking.handleMsgUndelegate at h
  obtain ⟨shares, -, h⟩ := Option.bind_eq_some_iff.1 h
  split at h
  · cases h
  obtain ⟨⟨s₁, completionTime⟩, h₁, h⟩ := Option.bind_eq_some_iff.1 h
  cases h
  exact hb.undelegate hh h₁

theorem Books.handleMsgBeginRedelegate (hh : hooks.KeepStore) (hb : Books s.store 0)
    {delegatorAddress : AccAddress} {validatorSrcAddress validatorDstAddress : ValAddress}
    {amount : Coin} (ha : 0 < amount.amount.i)
    (h : handleMsgBeginRedelegate hooks toLower permAddrs ctx s delegatorAddress validatorSrcAddress
      validatorDstAddress amount = some s') : Books s'.store 0 := by
  unfold Staking.handleMsgBeginRedelegate at h
  obtain ⟨shares, hshares, h⟩ := Option.bind_eq_some_iff.1 h
  split at h
  · cases h
  obtain ⟨⟨s₁, completionTime⟩, h₁, h⟩ := Option.bind_eq_some_iff.1 h
  cases h
  exact hb.beginRedelegation hh (validateUnbondAmount_nonneg hb ha.le hshares) h₁

/-- A message that passes `ValidateBasic`, signed by addresses of `sdk.AddrLen` bytes, keeps the
books. -/
theorem Books.handler (hh : hooks.KeepStore) (hb : Books s.store 0) {msg : Msg}
    (hok : (msg.validateBasic && msg.getSigners.all (·.length == addrLen)) = true)
    (h : handler hooks toLower permAddrs ctx s msg = some s') : Books s'.store 0 := by
  cases msg with
  | createValidator delegatorAddress validatorAddress value minSelfDelegation =>
    simp only [Msg.validateBasic, Msg.getSigners, Bool.and_eq_true, Bool.not_eq_true',
      List.isEmpty_eq_false_iff, beq_iff_eq, SdkInt.isPositive_iff, decide_eq_true_eq] at hok
    obtain ⟨⟨⟨⟨⟨_, hvd⟩, ha⟩, _⟩, _⟩, hsig⟩ := hok
    subst hvd
    simp only [if_true, List.all_cons, List.all_nil, Bool.and_true, beq_iff_eq] at hsig
    exact hb.handleMsgCreateValidator hh hsig ha h
  | editValidator validatorAddress minSelfDelegation => exact hb.handleMsgEditValidator h
  | delegate delegatorAddress validatorAddress amount =>
    simp only [Msg.validateBasic, Bool.and_eq_true, SdkInt.isPositive_iff] at hok
    exact hb.handleMsgDelegate hh hok.1.2 h
  | beginRedelegate delegatorAddress validatorSrcAddress validatorDstAddress amount =>
    simp only [Msg.validateBasic, Bool.and_eq_true, SdkInt.isPositive_iff] at hok
    exact hb.handleMsgBeginRedelegate hh hok.1.2 h
  | undelegate delegatorAddress validatorAddress amount => exact hb.handleMsgUndelegate hh h

end Messages

/-! ## Every run -/

/-- Every step keeps the books. -/
theorem Books.step (hh : hooks.KeepStore) (hb : Books s.store 0) {op : Op}
    (h : step hooks toLower permAddrs ctx s op = some s') : Books s'.store 0 := by
  cases op with
  | deliver msg =>
    rw [Staking.step] at h
    split at h
    next hok => exact hb.handler hh hok h
    next => cases h
  | slash valAddr infractionHeight power slashFactor => exact hb.slash hh h
  | jail valAddr => exact hb.jail h
  | unjail valAddr => exact hb.handleMsgUnjail h
  | endBlock =>
    obtain ⟨⟨s₁, updates⟩, h₁, rfl⟩ := Option.map_eq_some_iff.1 h
    exact hb.endBlocker hh h₁

/-- A run from a state whose books hold ends in one whose books hold. -/
theorem run_preserves_share_books (hh : hooks.KeepStore) (s : State σ)
    (ops : List (Context × Op)) (hb : Books s.store 0) :
    Books (run hooks toLower permAddrs s ops).store 0 :=
  Ledger.foldl_getD_inv (fun s : State σ => Books s.store 0)
    (fun s (op : Context × Op) => step hooks toLower permAddrs op.1 s op.2)
    (fun _ _ _ hb h => hb.step hh h) ops s hb

/-- The power index of one validator that is not jailed. -/
theorem index_single {a : ValAddress} {v : Validator} {k : List UInt8}
    (hlen : a.length = addrLen) (hj : v.jailed = false)
    (hk : getValidatorsByPowerIndexKey a v = some k) :
    Index.Indexes getValidatorsByPowerIndexKey (fun v => v.jailed = false)
      (fun a => a.length = addrLen) ((∅ : AList fun _ : ValAddress => Validator).insert a v)
      ((∅ : AList fun _ : List UInt8 => ValAddress).insert k a) :=
  Index.Indexes.empty.insert_of_unindexed keyInjective hlen (fun _ => by simp) hj hk

theorem redelegationGenesis_books : Books redelegationGenesis.store 0 := by
  obtain ⟨k, hk⟩ : ∃ k, getValidatorsByPowerIndexKey operatorA validatorA = some k :=
    Option.isSome_iff_exists.1 (by decide +kernel)
  have hidx : redelegationGenesis.store.validatorsByPower =
      (∅ : AList fun _ : List UInt8 => ValAddress).insert k operatorA := by
    simp only [redelegationGenesis, hk]
  refine ⟨?_, Ledger.lookup_of_entries (by decide +kernel),
    Ledger.lookup_of_entries (by decide +kernel), Ledger.lookup_of_entries (by decide +kernel),
    Ledger.lookup_of_entries (by decide +kernel), Ledger.lookup_of_entries (by decide +kernel),
    Ledger.lookup_of_entries (by decide)⟩
  rw [hidx]
  exact index_single (by decide) rfl hk

theorem redelegationState_books :
    (Hooks.none Unit).KeepStore ∧ Books redelegationGenesis.store 0 ∧
      Books redelegationState.store 0 :=
  ⟨Hooks.none_keepStore, redelegationGenesis_books,
    run_preserves_share_books Hooks.none_keepStore redelegationGenesis redelegationSteps
      redelegationGenesis_books⟩

/-- Validator `A` with two tokens and 10⁻¹⁸ shares, all its operator's. -/
def costlyValidatorA : Validator :=
  ⟨false, .bonded, stakeInt 2, Dec.smallestDec, stakeInt 1, 0, 0⟩

/-- A genesis state with `A` alone, its tokens in the bonded pool, and `D` holding one token. -/
def costlyShareGenesis : State Unit where
  store :=
    { params := ⟨1000, 100, 7, "stake"⟩
      validators := (∅ : AList fun _ : ValAddress => Validator).insert operatorA costlyValidatorA
      delegations := (∅ : AList fun _ : AccAddress × ValAddress => Dec).insert
        (operatorA, operatorA) Dec.smallestDec
      unbondingDelegations := ∅
      redelegations := ∅
      validatorsByPower := match getValidatorsByPowerIndexKey operatorA costlyValidatorA with
        | some key => (∅ : AList fun _ : List UInt8 => ValAddress).insert key operatorA
        | none => ∅
      lastValidatorPowers := ∅
      lastTotalPower := 0
      validatorQueue := ∅
      ubdQueue := ∅
      redelegationQueue := ∅ }
  supply :=
    ⟨((∅ : Accounts).insert [0] ⟨[⟨"stake", stakeInt 2⟩], .module [burner, staking]⟩).insert
      delegatorD ⟨[⟨"stake", stakeInt 1⟩], .base⟩, [⟨"stake", stakeInt 3⟩]⟩
  ext := ()

/-- The genesis state has the four properties, but a validator's tokens above its shares: one
token delegated to `A` buys `10⁻¹⁸ * 1 / 2` shares, truncated to zero, and the delegation is
stored with no shares. -/
theorem delegate_stores_zero_shares :
    (∀ a v, costlyShareGenesis.store.validators.lookup a = some v →
        v.delegatorShares.int = delegatedShares costlyShareGenesis.store.delegations a) ∧
      (∀ key d, costlyShareGenesis.store.delegations.lookup key = some d → 0 < d.int) ∧
      (∀ a v, costlyShareGenesis.store.validators.lookup a = some v → 0 ≤ v.tokens.i) ∧
      Index.Indexes getValidatorsByPowerIndexKey (fun v => v.jailed = false)
        (fun a => a.length = addrLen) costlyShareGenesis.store.validators
        costlyShareGenesis.store.validatorsByPower ∧
      (getDelegation (run (Hooks.none Unit) id poolPerms costlyShareGenesis
          [(⟨1, 0⟩, .deliver (.delegate delegatorD operatorA ⟨"stake", stakeInt 1⟩))])
        delegatorD operatorA).map Dec.int = some 0 := by
  obtain ⟨k, hk⟩ : ∃ k, getValidatorsByPowerIndexKey operatorA costlyValidatorA = some k :=
    Option.isSome_iff_exists.1 (by decide +kernel)
  have hidx : costlyShareGenesis.store.validatorsByPower =
      (∅ : AList fun _ : List UInt8 => ValAddress).insert k operatorA := by
    simp only [costlyShareGenesis, hk]
  refine ⟨Ledger.lookup_of_entries (by decide +kernel), Ledger.lookup_of_entries (by decide +kernel),
    Ledger.lookup_of_entries (by decide +kernel), ?_, by decide +kernel⟩
  rw [hidx]
  exact index_single (by decide) rfl hk

end Barkis.Staking
