import Barkis.Staking.Keeper
import Barkis.Lib.Index
import Barkis.Lib.Ledger

/-!
# The share books of the staking keeper

`x/staking/keeper/invariants.go` checks that every validator's `DelegatorShares` is the sum of
the shares of its delegations, that every delegation has positive shares, and that validators
hold no negative tokens; the power index holds the validators that are not jailed, under the
keys of their current tokens. `Books st owed` is that invariant of the staking store, with
`owed a` shares of the validator at `a` not yet matched by a delegation: zero outside
`Delegate` and `unbond`, which move a validator's shares and a delegation's one after the other.
It holds three more facts the keeper needs to keep it: a validator holds no more tokens than
shares counted in units of `10 ^ -18` (else a delegation of one token can be issued no shares),
every delegation's validator exists (else a validator created at its address starts with shares
it does not count), and no redelegation is from a validator to itself (else `Slash` writes back
the record it read before unbonding from it). Operators are `sdk.AddrLen` bytes long, so their keys in the power
index do not collide.

The hooks are taken to leave the staking store alone (`Hooks.KeepStore`), as the distribution
and slashing hooks of the application do. Each keeper function gets a lemma saying how it moves
the books; `delegate_steps`, `unbond_eq_some`, `undelegate_steps` and `beginRedelegation_steps`
say once what the functions that move shares do, step by step, for every invariant built on
them.
-/

namespace Barkis.Staking

open Bank Supply

/-- The shares of the delegations to `valAddr`. -/
def delegatedShares (delegations : AList fun _ : AccAddress × ValAddress => Dec)
    (valAddr : ValAddress) : Int :=
  Ledger.total (fun (key : AccAddress × ValAddress) (shares : Dec) =>
    if key.2 = valAddr then shares.int else 0) delegations

/-- The share books, with `owed a` shares of the validator at `a` not matched by delegations. -/
structure Books (st : Store) (owed : ValAddress → Int) : Prop where
  index : Index.Indexes getValidatorsByPowerIndexKey (fun v => v.jailed = false)
    (fun a => a.length = addrLen) st.validators st.validatorsByPower
  tokens_nonneg : ∀ a v, st.validators.lookup a = some v → 0 ≤ v.tokens.i
  tokens_le_shares : ∀ a v, st.validators.lookup a = some v → v.tokens.i ≤ v.delegatorShares.int
  shares_eq : ∀ a v, st.validators.lookup a = some v →
    v.delegatorShares.int = delegatedShares st.delegations a + owed a
  delegation_pos : ∀ key shares, st.delegations.lookup key = some shares → 0 < shares.int
  delegation_validator : ∀ key shares, st.delegations.lookup key = some shares →
    key.2 ∈ st.validators
  redelegation_ne : ∀ key entries, st.redelegations.lookup key = some entries → key.2.1 ≠ key.2.2

variable {σ : Type}

/-- The hooks write only the other modules' stores and the supply. -/
structure Hooks.KeepStore (hooks : Hooks σ) : Prop where
  afterValidatorCreated : ∀ s a s', hooks.afterValidatorCreated s a = some s' → s'.store = s.store
  beforeValidatorModified : ∀ s a s',
    hooks.beforeValidatorModified s a = some s' → s'.store = s.store
  afterValidatorRemoved : ∀ s a s', hooks.afterValidatorRemoved s a = some s' → s'.store = s.store
  afterValidatorBonded : ∀ s a s', hooks.afterValidatorBonded s a = some s' → s'.store = s.store
  afterValidatorBeginUnbonding : ∀ s a s',
    hooks.afterValidatorBeginUnbonding s a = some s' → s'.store = s.store
  beforeDelegationCreated : ∀ s d a s',
    hooks.beforeDelegationCreated s d a = some s' → s'.store = s.store
  beforeDelegationSharesModified : ∀ s d a s',
    hooks.beforeDelegationSharesModified s d a = some s' → s'.store = s.store
  beforeDelegationRemoved : ∀ s d a s',
    hooks.beforeDelegationRemoved s d a = some s' → s'.store = s.store
  afterDelegationModified : ∀ s d a s',
    hooks.afterDelegationModified s d a = some s' → s'.store = s.store
  beforeValidatorSlashed : ∀ s a f s',
    hooks.beforeValidatorSlashed s a f = some s' → s'.store = s.store

theorem Hooks.none_keepStore : (Hooks.none σ).KeepStore := by
  constructor <;> (intros; simp_all [Hooks.none])

theorem keyInjective :
    Index.KeyInjective getValidatorsByPowerIndexKey fun a : ValAddress => a.length = addrLen :=
  fun _ _ _ _ _ ha ha' h h' => getValidatorsByPowerIndexKey_injective ha ha' h h'

variable {st st' : Store} {owed : ValAddress → Int}

/-! ## The books of a store -/

namespace Books

/-- The books read the validators, the delegations, the power index and the redelegations only. -/
theorem of_eq (hb : Books st owed) (hv : st'.validators = st.validators)
    (hd : st'.delegations = st.delegations) (hi : st'.validatorsByPower = st.validatorsByPower)
    (hr : st'.redelegations = st.redelegations) : Books st' owed where
  index := by
    rw [hv, hi]
    exact hb.index
  tokens_nonneg := hv ▸ hb.tokens_nonneg
  tokens_le_shares := hv ▸ hb.tokens_le_shares
  shares_eq := hv ▸ hd ▸ hb.shares_eq
  delegation_pos := hd ▸ hb.delegation_pos
  delegation_validator := hv ▸ hd ▸ hb.delegation_validator
  redelegation_ne := hr ▸ hb.redelegation_ne

theorem shares_nonneg (hb : Books st owed) {a : ValAddress} {v : Validator}
    (hv : st.validators.lookup a = some v) : 0 ≤ v.delegatorShares.int :=
  le_trans (hb.tokens_nonneg a v hv) (hb.tokens_le_shares a v hv)

/-- A delegation's shares are at most those of all delegations to its validator. -/
theorem delegation_le (hb : Books st owed) {delAddr : AccAddress} {valAddr : ValAddress}
    {shares : Dec} (hd : st.delegations.lookup (delAddr, valAddr) = some shares) :
    shares.int ≤ delegatedShares st.delegations valAddr := by
  have hle := Ledger.weightAt_le_total
    (fun (key : AccAddress × ValAddress) (shares : Dec) => if key.2 = valAddr then shares.int else 0)
    st.delegations (delAddr, valAddr) fun key d hkd => by
      split_ifs
      · exact (hb.delegation_pos key d hkd).le
      · exact le_rfl
  simp only [Ledger.weightAt, hd, Option.map_some, Option.getD_some, if_true] at hle
  exact hle

/-- A validator whose delegations hold no shares has none. -/
theorem no_delegation (hb : Books st owed) {valAddr : ValAddress}
    (h0 : delegatedShares st.delegations valAddr = 0) (delAddr : AccAddress) :
    st.delegations.lookup (delAddr, valAddr) = none := by
  rcases hd : st.delegations.lookup (delAddr, valAddr) with _ | shares
  · rfl
  · have := hb.delegation_le hd
    have := hb.delegation_pos _ _ hd
    omega

/-- A validator record written where one is stored, with the index rewritten to match: the
books move by the change of its shares. -/
theorem write (hb : Books st owed) {addr : ValAddress} {validator validator' : Validator}
    (hv : st.validators.lookup addr = some validator)
    (hvals : st'.validators = st.validators.insert addr validator')
    (hdels : st'.delegations = st.delegations) (hred : st'.redelegations = st.redelegations)
    (hidx : Index.Indexes getValidatorsByPowerIndexKey (fun v => v.jailed = false)
      (fun a => a.length = addrLen) st'.validators st'.validatorsByPower)
    (hT : 0 ≤ validator'.tokens.i) (hTS : validator'.tokens.i ≤ validator'.delegatorShares.int) :
    Books st' (Function.update owed addr
      (owed addr + (validator'.delegatorShares.int - validator.delegatorShares.int))) where
  index := hidx
  tokens_nonneg a v ha := by
    rw [hvals, Ledger.lookup_insert_ite] at ha
    split_ifs at ha
    · cases ha
      exact hT
    · exact hb.tokens_nonneg a v ha
  tokens_le_shares a v ha := by
    rw [hvals, Ledger.lookup_insert_ite] at ha
    split_ifs at ha
    · cases ha
      exact hTS
    · exact hb.tokens_le_shares a v ha
  shares_eq a v ha := by
    rw [hvals, Ledger.lookup_insert_ite] at ha
    rw [hdels]
    split_ifs at ha with h'
    · cases ha
      subst h'
      have := hb.shares_eq a validator hv
      rw [Function.update_self]
      omega
    · rw [Function.update_of_ne h']
      exact hb.shares_eq a v ha
  delegation_pos key shares hd := hb.delegation_pos key shares (hdels ▸ hd)
  delegation_validator key shares hd := by
    rw [hvals, AList.mem_insert]
    exact Or.inr (hb.delegation_validator key shares (hdels ▸ hd))
  redelegation_ne := hred ▸ hb.redelegation_ne

/-- ... and by nothing when its shares stay. -/
theorem write_of_shares (hb : Books st owed) {addr : ValAddress} {validator validator' : Validator}
    (hv : st.validators.lookup addr = some validator)
    (hvals : st'.validators = st.validators.insert addr validator')
    (hdels : st'.delegations = st.delegations) (hred : st'.redelegations = st.redelegations)
    (hidx : Index.Indexes getValidatorsByPowerIndexKey (fun v => v.jailed = false)
      (fun a => a.length = addrLen) st'.validators st'.validatorsByPower)
    (hT : 0 ≤ validator'.tokens.i) (hTS : validator'.tokens.i ≤ validator'.delegatorShares.int)
    (hS : validator'.delegatorShares = validator.delegatorShares) : Books st' owed := by
  have hb' := hb.write hv hvals hdels hred hidx hT hTS
  rwa [hS, sub_self, add_zero, Function.update_eq_self] at hb'

end Books

/-! ## The keeper's writes -/

variable {hooks : Hooks σ} {toLower : String → String}
  {permAddrs : String → Option PermissionsForAddress} {blockTime : Int64} {s s' : State σ}

/-- A transfer between the pools writes the supply only. -/
theorem transferPoolTokens_supply {fromPool toPool : String} {tokens : SdkInt}
    (h : transferPoolTokens toLower permAddrs blockTime s fromPool toPool tokens = some s') :
    s' = { s with supply := s'.supply } := by
  obtain ⟨coins, -, h⟩ := Option.bind_eq_some_iff.1 h
  obtain ⟨supply, -, h⟩ := Option.bind_eq_some_iff.1 h
  cases h
  rfl

/-- A burn from a pool writes the supply only. -/
theorem burnPoolTokens_supply {pool : String} {amt : SdkInt}
    (h : burnPoolTokens toLower permAddrs blockTime s pool amt = some s') :
    s' = { s with supply := s'.supply } := by
  unfold burnPoolTokens at h
  split at h
  · cases h
    rfl
  · obtain ⟨coins, -, h⟩ := Option.bind_eq_some_iff.1 h
    obtain ⟨supply, -, h⟩ := Option.bind_eq_some_iff.1 h
    cases h
    rfl

theorem transferPoolTokens_store {fromPool toPool : String} {tokens : SdkInt}
    (h : transferPoolTokens toLower permAddrs blockTime s fromPool toPool tokens = some s') :
    s'.store = s.store := by
  rw [transferPoolTokens_supply h]

theorem burnPoolTokens_store {pool : String} {amt : SdkInt}
    (h : burnPoolTokens toLower permAddrs blockTime s pool amt = some s') : s'.store = s.store := by
  rw [burnPoolTokens_supply h]

variable {addr : ValAddress} {validator validator' : Validator}

/-- `updateValidator` writes the changed record and moves its power-index key. -/
theorem updateValidator_spec {α : Type} {change : Validator → Option (Validator × α)} {r : α}
    (h : updateValidator s addr validator change = some (s', validator', r)) :
    change validator = some (validator', r) ∧ ∃ k,
      getValidatorsByPowerIndexKey addr validator = some k ∧
      s'.store.validators = s.store.validators.insert addr validator' ∧
      s'.store.delegations = s.store.delegations ∧ s'.store.redelegations = s.store.redelegations ∧
      (validator'.jailed = true ∧ s'.store.validatorsByPower = s.store.validatorsByPower.erase k ∨
        ∃ k', validator'.jailed = false ∧ getValidatorsByPowerIndexKey addr validator' = some k' ∧
          s'.store.validatorsByPower = (s.store.validatorsByPower.erase k).insert k' addr) := by
  unfold updateValidator at h
  obtain ⟨s₁, h₁, h⟩ := Option.bind_eq_some_iff.1 h
  obtain ⟨k, hk, rfl⟩ := Option.map_eq_some_iff.1 h₁
  obtain ⟨⟨v, r'⟩, hc, h⟩ := Option.bind_eq_some_iff.1 h
  obtain ⟨s₃, h₃, h⟩ := Option.bind_eq_some_iff.1 h
  cases h
  unfold setValidatorByPowerIndex at h₃
  split at h₃
  next hj =>
    cases h₃
    exact ⟨hc, k, hk, rfl, rfl, rfl, Or.inl ⟨hj, rfl⟩⟩
  next hj =>
    obtain ⟨k', hk', rfl⟩ := Option.map_eq_some_iff.1 h₃
    exact ⟨hc, k, hk, rfl, rfl, rfl, Or.inr ⟨k', by simpa using hj, hk', rfl⟩⟩

/-- A validator changed in place keeps the books, moved by the change of its shares, when the
new record holds no negative tokens and no more tokens than shares. -/
theorem Books.updateValidator {α : Type} {change : Validator → Option (Validator × α)} {r : α}
    (hb : Books s.store owed) (hv : getValidator s addr = some validator)
    (h : updateValidator s addr validator change = some (s', validator', r))
    (hT : 0 ≤ validator'.tokens.i) (hTS : validator'.tokens.i ≤ validator'.delegatorShares.int) :
    Books s'.store (Function.update owed addr
      (owed addr + (validator'.delegatorShares.int - validator.delegatorShares.int))) := by
  obtain ⟨-, k, hk, hvals, hdels, hred, hidx⟩ := updateValidator_spec h
  refine hb.write hv hvals hdels hred ?_ hT hTS
  rcases hidx with ⟨hj, hi⟩ | ⟨k', hj, hk', hi⟩
  · rw [hvals, hi]
    exact hb.index.update_of_not_p keyInjective hv hk (by simp [hj])
  · rw [hvals, hi]
    exact hb.index.update_of_p keyInjective hv hk hj hk'

theorem Books.jailValidator (hb : Books s.store owed) (hv : getValidator s addr = some validator)
    (h : jailValidator s addr validator = some s') : Books s'.store owed := by
  unfold Staking.jailValidator at h
  split at h
  · cases h
  · obtain ⟨k, hk, rfl⟩ := Option.map_eq_some_iff.1 h
    have hk₀ : getValidatorsByPowerIndexKey addr validator = some k :=
      (getValidatorsByPowerIndexKey_congr rfl).symm.trans hk
    refine hb.write_of_shares hv rfl rfl rfl ?_ (hb.tokens_nonneg addr validator hv)
      (hb.tokens_le_shares addr validator hv) rfl
    exact hb.index.update_of_not_p keyInjective hv hk₀ (by simp)

theorem Books.unjailValidator (hb : Books s.store owed) (hv : getValidator s addr = some validator)
    (h : unjailValidator s addr validator = some s') : Books s'.store owed := by
  unfold Staking.unjailValidator at h
  split at h
  · cases h
  next hj =>
    simp only [setValidatorByPowerIndex, Bool.false_eq_true, if_false] at h
    obtain ⟨k, hk, rfl⟩ := Option.map_eq_some_iff.1 h
    refine hb.write_of_shares hv rfl rfl rfl ?_ (hb.tokens_nonneg addr validator hv)
      (hb.tokens_le_shares addr validator hv) rfl
    exact hb.index.insert_of_unindexed keyInjective (hb.index.dom addr validator hv)
      (hb.index.unindexed_of_not_p hv (by simpa using hj)) rfl hk

/-- A record written with the same tokens, shares and jail flag keeps the books. -/
theorem Books.setValidator (hb : Books s.store owed) (hv : getValidator s addr = some validator)
    (htokens : validator'.tokens = validator.tokens)
    (hshares : validator'.delegatorShares = validator.delegatorShares)
    (hjailed : validator'.jailed = validator.jailed) :
    Books (setValidator s addr validator').store owed := by
  refine hb.write_of_shares hv rfl rfl rfl ?_ (htokens ▸ hb.tokens_nonneg addr validator hv)
    (htokens ▸ hshares ▸ hb.tokens_le_shares addr validator hv) hshares
  exact hb.index.congr hv (by rw [hjailed]) (getValidatorsByPowerIndexKey_congr htokens)

/-- Removing a validator whose shares are all unbonded, with none owed, keeps the books. -/
theorem Books.removeValidator (hh : hooks.KeepStore) (hb : Books s.store owed)
    (hz : ∀ v, getValidator s addr = some v → v.delegatorShares.int = 0) (howed : owed addr = 0)
    (h : removeValidator hooks s addr = some s') : Books s'.store owed := by
  unfold Staking.removeValidator at h
  split at h
  · cases h
    exact hb
  next validator hv =>
  split at h
  · cases h
  split at h
  · cases h
  obtain ⟨k, hk, h⟩ := Option.bind_eq_some_iff.1 h
  rw [hh.afterValidatorRemoved _ _ _ h]
  have hv' : s.store.validators.lookup addr = some validator := hv
  -- no delegation is left to the validator
  have h0 : delegatedShares s.store.delegations addr = 0 := by
    have := hb.shares_eq addr validator hv'
    have := hz validator hv
    omega
  have hnone := hb.no_delegation h0
  refine ⟨hb.index.erase keyInjective hv' hk,
    fun a v ha => hb.tokens_nonneg a v (Ledger.lookup_of_lookup_erase ha),
    fun a v ha => hb.tokens_le_shares a v (Ledger.lookup_of_lookup_erase ha),
    fun a v ha => hb.shares_eq a v (Ledger.lookup_of_lookup_erase ha), hb.delegation_pos,
    fun key shares hd => ?_, hb.redelegation_ne⟩
  · obtain ⟨d, a⟩ := key
    have hd' : s.store.delegations.lookup (d, a) = some shares := hd
    have hne : a ≠ addr := by
      rintro rfl
      rw [hnone d] at hd'
      cases hd'
    exact AList.mem_erase.2 ⟨hne, hb.delegation_validator _ shares hd'⟩

theorem jailValidator_spec (h : jailValidator s addr validator = some s') :
    validator.jailed = false ∧
      s'.store.validators = s.store.validators.insert addr { validator with jailed := true } ∧
      s'.store.delegations = s.store.delegations := by
  unfold jailValidator at h
  split at h
  · cases h
  next hj =>
    obtain ⟨k, -, rfl⟩ := Option.map_eq_some_iff.1 h
    exact ⟨by simpa using hj, rfl, rfl⟩

/-- `RemoveValidator` writes no other validator. -/
theorem removeValidator_frame (hh : hooks.KeepStore) (h : removeValidator hooks s addr = some s')
    {a : ValAddress} (ha : a ≠ addr) : getValidator s' a = getValidator s a := by
  unfold removeValidator at h
  split at h
  · cases h
    rfl
  split at h
  · cases h
  split at h
  · cases h
  obtain ⟨k, -, h⟩ := Option.bind_eq_some_iff.1 h
  simp only [getValidator, hh.afterValidatorRemoved _ _ _ h, State.modify_store]
  exact AList.lookup_erase_ne ha

/-! ## Delegations -/

variable {delAddr : AccAddress} {valAddr : ValAddress}

theorem delegatedShares_insert (delegations : AList fun _ : AccAddress × ValAddress => Dec)
    (shares : Dec) (a : ValAddress) :
    delegatedShares (delegations.insert (delAddr, valAddr) shares) a =
      delegatedShares delegations a + if valAddr = a then
        shares.int - ((delegations.lookup (delAddr, valAddr)).map Dec.int).getD 0 else 0 := by
  unfold delegatedShares
  rw [Ledger.total_insert]
  by_cases h : valAddr = a
  · subst h
    cases hl : delegations.lookup (delAddr, valAddr) <;> simp [Ledger.weightAt, hl]
    ring
  · cases hl : delegations.lookup (delAddr, valAddr) <;> simp [Ledger.weightAt, hl, h]

theorem delegatedShares_erase (delegations : AList fun _ : AccAddress × ValAddress => Dec)
    (a : ValAddress) :
    delegatedShares (delegations.erase (delAddr, valAddr)) a =
      delegatedShares delegations a - if valAddr = a then
        ((delegations.lookup (delAddr, valAddr)).map Dec.int).getD 0 else 0 := by
  unfold delegatedShares
  rw [Ledger.total_erase]
  by_cases h : valAddr = a
  · subst h
    cases hl : delegations.lookup (delAddr, valAddr) <;> simp [Ledger.weightAt, hl]
  · cases hl : delegations.lookup (delAddr, valAddr) <;> simp [Ledger.weightAt, hl, h]

/-- The shares of a delegation before a write, zero when there is none. -/
def oldShares (s : State σ) (delAddr : AccAddress) (valAddr : ValAddress) : Int :=
  ((getDelegation s delAddr valAddr).map Dec.int).getD 0

/-- Writing positive shares to a delegation of an existing validator moves the books by the
change. -/
theorem Books.setDelegation {shares : Dec} (hb : Books s.store owed)
    (hval : valAddr ∈ s.store.validators) (hpos : 0 < shares.int) :
    Books (setDelegation s delAddr valAddr shares).store
      (Function.update owed valAddr (owed valAddr + (oldShares s delAddr valAddr - shares.int))) where
  index := hb.index
  tokens_nonneg := hb.tokens_nonneg
  tokens_le_shares := hb.tokens_le_shares
  shares_eq a v ha := by
    have := hb.shares_eq a v ha
    show _ = delegatedShares (s.store.delegations.insert _ _) a + _
    rw [delegatedShares_insert]
    by_cases h : valAddr = a
    · subst h
      rw [if_pos rfl, Function.update_self]
      unfold oldShares getDelegation at *
      omega
    · rw [if_neg h, Function.update_of_ne (Ne.symm h)]
      omega
  delegation_pos key d hd := by
    change (s.store.delegations.insert _ _).lookup key = some d at hd
    rw [Ledger.lookup_insert_ite] at hd
    split_ifs at hd
    · cases hd
      exact hpos
    · exact hb.delegation_pos key d hd
  delegation_validator key d hd := by
    change (s.store.delegations.insert _ _).lookup key = some d at hd
    rw [Ledger.lookup_insert_ite] at hd
    split_ifs at hd with h
    · subst h
      exact hval
    · exact hb.delegation_validator key d hd
  redelegation_ne := hb.redelegation_ne

/-- Removing a delegation moves the books by its shares. -/
theorem Books.removeDelegation (hh : hooks.KeepStore) (hb : Books s.store owed)
    (h : removeDelegation hooks s delAddr valAddr = some s') :
    Books s'.store (Function.update owed valAddr (owed valAddr + oldShares s delAddr valAddr)) := by
  obtain ⟨s₁, h₁, rfl⟩ := Option.map_eq_some_iff.1 h
  have hs₁ := hh.beforeDelegationRemoved _ _ _ _ h₁
  have hb₁ : Books s₁.store owed := hs₁ ▸ hb
  have hold : oldShares s delAddr valAddr = oldShares s₁ delAddr valAddr := by
    simp [oldShares, getDelegation, hs₁]
  rw [hold]
  refine ⟨hb₁.index, hb₁.tokens_nonneg, hb₁.tokens_le_shares, fun a v ha => ?_,
    fun key d hd => hb₁.delegation_pos key d (Ledger.lookup_of_lookup_erase hd),
    fun key d hd => hb₁.delegation_validator key d (Ledger.lookup_of_lookup_erase hd),
    hb₁.redelegation_ne⟩
  have := hb₁.shares_eq a v ha
  show _ = delegatedShares (s₁.store.delegations.erase _) a + _
  rw [delegatedShares_erase]
  by_cases h : valAddr = a
  · subst h
    rw [if_pos rfl, Function.update_self]
    unfold oldShares getDelegation at *
    omega
  · rw [if_neg h, Function.update_of_ne (Ne.symm h)]
    omega

/-! ## Delegating and unbonding -/

theorem update_zero_eq_zero {a : ValAddress} {x : Int} (hx : x = 0) :
    Function.update (0 : ValAddress → Int) a x = 0 := by
  subst hx
  exact Function.update_eq_self a 0

/-- The steps of `Delegate`: the hook before, by whether the delegation exists; the transfer of
tokens, which writes the supply only; the validator's new tokens and shares; the delegation; and
the hook after. -/
theorem delegate_steps {bondAmt : SdkInt} {tokenSrc : BondStatus} {subtractAccount : Bool}
    {newShares : Dec}
    (h : delegate hooks toLower permAddrs blockTime s delAddr bondAmt tokenSrc valAddr validator
      subtractAccount = some (s', newShares)) :
    validator.invalidExRate = false ∧ ∃ s₁ s₂ s₃ validator' shares,
      (getDelegation s delAddr valAddr = none ∧
          hooks.beforeDelegationCreated s delAddr valAddr = some s₁ ∨
        hooks.beforeDelegationSharesModified s delAddr valAddr = some s₁) ∧
      s₂ = { s₁ with supply := s₂.supply } ∧
      addValidatorTokensAndShares s₂ valAddr validator bondAmt = some (s₃, validator', newShares) ∧
      ((getDelegation s delAddr valAddr).getD Dec.zeroDec).add newShares = some shares ∧
      hooks.afterDelegationModified (setDelegation s₃ delAddr valAddr shares) delAddr valAddr =
        some s' := by
  unfold delegate at h
  split at h
  next => cases h
  next hex =>
  refine ⟨by simpa using hex, ?_⟩
  extract_lets found tail sendName pool at h
  have hfound : found = getDelegation s delAddr valAddr := rfl
  clear_value found
  subst hfound
  -- the hook before the transfer
  obtain ⟨s₁, hs₁, h⟩ : ∃ s₁, (getDelegation s delAddr valAddr = none ∧
      hooks.beforeDelegationCreated s delAddr valAddr = some s₁ ∨
        hooks.beforeDelegationSharesModified s delAddr valAddr = some s₁) ∧
      pool s₁ = some (s', newShares) := by
    split at h
    · obtain ⟨s₁, h₁, h⟩ := Option.bind_eq_some_iff.1 h
      exact ⟨s₁, Or.inr h₁, h⟩
    next hnone =>
      obtain ⟨s₁, h₁, h⟩ := Option.bind_eq_some_iff.1 h
      exact ⟨s₁, Or.inl ⟨hnone, h₁⟩, h⟩
  -- the transfer into or between the pools
  obtain ⟨s₂, hs₂, h⟩ : ∃ s₂, s₂ = { s₁ with supply := s₂.supply } ∧
      tail s₂ = some (s', newShares) := by
    simp only [pool] at h
    split at h
    · split at h
      · cases h
      · obtain ⟨coins, -, h⟩ := Option.bind_eq_some_iff.1 h
        obtain ⟨supply, -, h⟩ := Option.bind_eq_some_iff.1 h
        exact ⟨{ s₁ with supply }, rfl, h⟩
    · split at h
      · exact ⟨s₁, rfl, h⟩
      · exact ⟨s₁, rfl, h⟩
      · obtain ⟨s₂, h₂, h⟩ := Option.bind_eq_some_iff.1 h
        exact ⟨s₂, transferPoolTokens_supply h₂, h⟩
      · obtain ⟨s₂, h₂, h⟩ := Option.bind_eq_some_iff.1 h
        exact ⟨s₂, transferPoolTokens_supply h₂, h⟩
  simp only [tail] at h
  obtain ⟨⟨s₃, validator', n⟩, hadd, h⟩ := Option.bind_eq_some_iff.1 h
  obtain ⟨shares, hsh, h⟩ := Option.bind_eq_some_iff.1 h
  obtain ⟨s₄, h₄, h⟩ := Option.bind_eq_some_iff.1 h
  cases h
  exact ⟨s₁, s₂, s₃, validator', shares, hs₁, hs₂, hadd, hsh, h₄⟩

/-- The steps of `Delegate`, the hook before and the transfer of tokens leaving the staking
store. -/
theorem delegate_eq_some (hh : hooks.KeepStore) {bondAmt : SdkInt} {tokenSrc : BondStatus}
    {subtractAccount : Bool} {newShares : Dec}
    (h : delegate hooks toLower permAddrs blockTime s delAddr bondAmt tokenSrc valAddr validator
      subtractAccount = some (s', newShares)) :
    validator.invalidExRate = false ∧ ∃ s₂ s₃ validator' shares, s₂.store = s.store ∧
      addValidatorTokensAndShares s₂ valAddr validator bondAmt = some (s₃, validator', newShares) ∧
      ((getDelegation s delAddr valAddr).getD Dec.zeroDec).add newShares = some shares ∧
      hooks.afterDelegationModified (setDelegation s₃ delAddr valAddr shares) delAddr valAddr =
        some s' := by
  obtain ⟨hex, s₁, s₂, s₃, validator', shares, hpre, hs₂, hadd, hsh, h₄⟩ := delegate_steps h
  have hs₁ : s₁.store = s.store := by
    rcases hpre with ⟨-, h₁⟩ | h₁
    · exact hh.beforeDelegationCreated _ _ _ _ h₁
    · exact hh.beforeDelegationSharesModified _ _ _ _ h₁
  exact ⟨hex, s₂, s₃, validator', shares, by rw [hs₂]; exact hs₁, hadd, hsh, h₄⟩

/-- `Delegate` of a positive amount to a stored validator keeps the books and issues shares. -/
theorem Books.delegate (hh : hooks.KeepStore) (hb : Books s.store 0)
    (hv : getValidator s valAddr = some validator) {bondAmt : SdkInt} (ha : 0 < bondAmt.i)
    {tokenSrc : BondStatus} {subtractAccount : Bool} {newShares : Dec}
    (h : delegate hooks toLower permAddrs blockTime s delAddr bondAmt tokenSrc valAddr validator
      subtractAccount = some (s', newShares)) :
    Books s'.store 0 ∧ 0 < newShares.int := by
  obtain ⟨-, s₂, s₃, validator', shares, hs₂, hadd, hsh, h₄⟩ := delegate_eq_some hh h
  have hv' : s.store.validators.lookup valAddr = some validator := hv
  have hv₂ : getValidator s₂ valAddr = some validator := by
    simpa [getValidator, hs₂] using hv
  obtain ⟨hc, k, -, hvals, hdels, -, -⟩ := updateValidator_spec hadd
  obtain ⟨tokens, dShares, rfl, ht, hds, hn⟩ := Validator.addTokensFromDel_spec hc
    (hb.tokens_nonneg _ _ hv') (hb.tokens_le_shares _ _ hv') ha
  have hTS := hb.tokens_le_shares _ _ hv'
  have hb₃ := (hs₂ ▸ hb : Books s₂.store 0).updateValidator hv₂ hadd (by
    have := hb.tokens_nonneg _ _ hv'
    simp only
    omega) (by simp only; omega)
  -- the delegation's shares before and after
  have hold : oldShares s₃ delAddr valAddr = ((getDelegation s delAddr valAddr).map Dec.int).getD 0 := by
    simp [oldShares, getDelegation, hdels, hs₂]
  have hold0 : 0 ≤ oldShares s₃ delAddr valAddr := by
    rw [hold]
    rcases hd : getDelegation s delAddr valAddr with _ | d
    · simp
    · exact (hb.delegation_pos _ d hd).le
  have hshares : shares.int = oldShares s₃ delAddr valAddr + newShares.int := by
    rw [(Dec.add_eq_some.1 hsh).1, hold]
    rcases getDelegation s delAddr valAddr with _ | d <;> simp
  have hmem : valAddr ∈ s₃.store.validators := by
    rw [hvals]
    exact (AList.mem_insert _).2 (Or.inl rfl)
  have hb₄ : Books (Staking.setDelegation s₃ delAddr valAddr shares).store _ :=
    hb₃.setDelegation hmem (by omega)
  rw [Function.update_idem, Function.update_self, update_zero_eq_zero (by simp only [Pi.zero_apply]; omega)]
    at hb₄
  exact ⟨hh.afterDelegationModified _ _ _ _ h₄ ▸ hb₄, by omega⟩

theorem removeDelegation_validators (hh : hooks.KeepStore)
    (h : removeDelegation hooks s delAddr valAddr = some s') :
    s'.store.validators = s.store.validators := by
  obtain ⟨s₁, h₁, rfl⟩ := Option.map_eq_some_iff.1 h
  simp [hh.beforeDelegationRemoved _ _ _ _ h₁]

/-- The self-delegation check of `unbond` leaves the stored validator, or jails it. -/
theorem jailIfBelowMinSelfDelegation_spec {remaining : Dec}
    (h : jailIfBelowMinSelfDelegation s delAddr valAddr validator remaining =
      some (s', validator')) :
    s' = s ∧ validator' = validator ∨
      jailValidator s valAddr validator = some s' ∧ validator' = { validator with jailed := true } := by
  unfold jailIfBelowMinSelfDelegation at h
  split at h
  · obtain ⟨tokens, -, h⟩ := Option.bind_eq_some_iff.1 h
    split at h
    · obtain ⟨s₁, h₁, h⟩ := Option.bind_eq_some_iff.1 h
      obtain ⟨v, hv, h⟩ := Option.bind_eq_some_iff.1 h
      cases h
      refine Or.inr ⟨h₁, ?_⟩
      have hvals := (jailValidator_spec h₁).2.1
      simpa [getValidator, hvals] using hv.symm
    · cases h
      exact Or.inl ⟨rfl, rfl⟩
  · cases h
    exact Or.inl ⟨rfl, rfl⟩

theorem Books.jailIfBelowMinSelfDelegation {remaining : Dec} (hb : Books s.store owed)
    (hv : getValidator s valAddr = some validator)
    (h : jailIfBelowMinSelfDelegation s delAddr valAddr validator remaining =
      some (s', validator')) :
    Books s'.store owed ∧ getValidator s' valAddr = some validator' ∧
      validator'.delegatorShares = validator.delegatorShares ∧
      s'.store.delegations = s.store.delegations ∧
      ∀ a, a ≠ valAddr → getValidator s' a = getValidator s a := by
  rcases jailIfBelowMinSelfDelegation_spec h with ⟨rfl, rfl⟩ | ⟨hj, rfl⟩
  · exact ⟨hb, hv, rfl, rfl, fun _ _ => rfl⟩
  · obtain ⟨-, hvals, hdels⟩ := jailValidator_spec hj
    refine ⟨hb.jailValidator hv hj, by simp [getValidator, hvals], rfl, hdels, fun a ha => ?_⟩
    simp [getValidator, hvals, AList.lookup_insert_ne ha]

/-- The steps of `unbond`. -/
theorem unbond_eq_some {shares : Dec} {amount : SdkInt}
    (h : unbond hooks s delAddr valAddr shares = some (s', amount)) :
    ∃ delShares remaining validator s₁ s₂ validator₂ s₃ s₄ validator₄,
      getDelegation s delAddr valAddr = some delShares ∧ shares.int ≤ delShares.int ∧
      hooks.beforeDelegationSharesModified s delAddr valAddr = some s₁ ∧
      getValidator s₁ valAddr = some validator ∧
      delShares.sub shares = some remaining ∧
      jailIfBelowMinSelfDelegation s₁ delAddr valAddr validator remaining = some (s₂, validator₂) ∧
      (remaining.int = 0 ∧ removeDelegation hooks s₂ delAddr valAddr = some s₃ ∨
        remaining.int ≠ 0 ∧ hooks.afterDelegationModified
          (setDelegation s₂ delAddr valAddr remaining) delAddr valAddr = some s₃) ∧
      removeValidatorTokensAndShares s₃ valAddr validator₂ shares = some (s₄, validator₄, amount) ∧
      (validator₄.delegatorShares.int = 0 ∧ validator₄.status = .unbonded ∧
          removeValidator hooks s₄ valAddr = some s' ∨
        ¬(validator₄.delegatorShares.int = 0 ∧ validator₄.status = .unbonded) ∧ s' = s₄) := by
  unfold unbond at h
  obtain ⟨delShares, hd, h⟩ := Option.bind_eq_some_iff.1 h
  obtain ⟨s₁, h₁, h⟩ := Option.bind_eq_some_iff.1 h
  split at h
  · cases h
  next hlt =>
  obtain ⟨validator, hv, h⟩ := Option.bind_eq_some_iff.1 h
  obtain ⟨remaining, hr, h⟩ := Option.bind_eq_some_iff.1 h
  obtain ⟨⟨s₂, validator₂⟩, h₂, h⟩ := Option.bind_eq_some_iff.1 h
  dsimp -zeta only at h
  extract_lets tail at h
  -- the delegation is removed or cut
  obtain ⟨s₃, h₃, h⟩ : ∃ s₃, (remaining.int = 0 ∧ removeDelegation hooks s₂ delAddr valAddr = some s₃ ∨
      remaining.int ≠ 0 ∧ hooks.afterDelegationModified
        (setDelegation s₂ delAddr valAddr remaining) delAddr valAddr = some s₃) ∧
      tail s₃ = some (s', amount) := by
    split at h
    next hz =>
      obtain ⟨s₃, h₃, h⟩ := Option.bind_eq_some_iff.1 h
      exact ⟨s₃, Or.inl ⟨by simpa using hz, h₃⟩, h⟩
    next hz =>
      obtain ⟨s₃, h₃, h⟩ := Option.bind_eq_some_iff.1 h
      exact ⟨s₃, Or.inr ⟨by simpa using hz, h₃⟩, h⟩
  simp only [tail] at h
  obtain ⟨⟨s₄, validator₄, amount'⟩, h₄, h⟩ := Option.bind_eq_some_iff.1 h
  refine ⟨delShares, remaining, validator, s₁, s₂, validator₂, s₃, s₄, validator₄, hd,
    not_lt.1 hlt, h₁, hv, hr, h₂, h₃, ?_⟩
  split at h
  next hz =>
    obtain ⟨s₅, h₅, h⟩ := Option.bind_eq_some_iff.1 h
    cases h
    simp only [Bool.and_eq_true, Dec.isZero_iff] at hz
    exact ⟨h₄, Or.inl ⟨hz.1, by simpa [Validator.isUnbonded] using hz.2, h₅⟩⟩
  next hz =>
    cases h
    simp only [Bool.and_eq_true, Dec.isZero_iff, not_and] at hz
    exact ⟨h₄, Or.inr ⟨fun h' => hz h'.1 (by simp [Validator.isUnbonded, h'.2]), rfl⟩⟩

/-- `unbond` keeps the books and writes no validator but its own; shares that are not negative
take tokens that are not negative. -/
theorem Books.unbond (hh : hooks.KeepStore) (hb : Books s.store 0) {shares : Dec}
    {amount : SdkInt} (h : unbond hooks s delAddr valAddr shares = some (s', amount)) :
    Books s'.store 0 ∧ (0 ≤ shares.int → 0 ≤ amount.i) ∧
      ∀ a, a ≠ valAddr → getValidator s' a = getValidator s a := by
  obtain ⟨delShares, remaining, validator, s₁, s₂, validator₂, s₃, s₄, validator₄, hd, hle, h₁,
    hv, hr, hj, hdel, hrem, hfin⟩ := unbond_eq_some h
  have hs₁ := hh.beforeDelegationSharesModified _ _ _ _ h₁
  have hv' : s.store.validators.lookup valAddr = some validator := by
    simpa [getValidator, hs₁] using hv
  have hd' : s.store.delegations.lookup (delAddr, valAddr) = some delShares := hd
  have hb₁ : Books s₁.store 0 := hs₁ ▸ hb
  obtain ⟨hb₂, hv₂, hS₂, hdels₂, hframe₂⟩ :=
    hb₁.jailIfBelowMinSelfDelegation hv hj
  have hr' : remaining.int = delShares.int - shares.int := (Dec.sub_eq_some.1 hr).1
  have hold : oldShares s₂ delAddr valAddr = delShares.int := by
    simp [oldShares, getDelegation, hdels₂, hs₁, hd']
  -- the delegation gives up the shares, which the validator still holds
  obtain ⟨hb₃, hvals₃⟩ : Books s₃.store (Function.update 0 valAddr shares.int) ∧
      s₃.store.validators = s₂.store.validators := by
    rcases hdel with ⟨hz, h₃⟩ | ⟨hz, h₃⟩
    · have := hb₂.removeDelegation hh h₃
      rw [hold, Pi.zero_apply, zero_add, show delShares.int = shares.int by omega] at this
      exact ⟨this, removeDelegation_validators hh h₃⟩
    · have hmem : valAddr ∈ s₂.store.validators := AList.lookup_isSome.1 (by
        rw [show s₂.store.validators.lookup valAddr = some validator₂ from hv₂]
        rfl)
      have hpos : 0 < remaining.int := by
        have := hb.delegation_pos _ _ hd'
        omega
      have : Books (Staking.setDelegation s₂ delAddr valAddr remaining).store _ :=
        hb₂.setDelegation hmem hpos
      rw [hold, Pi.zero_apply, zero_add, show delShares.int - remaining.int = shares.int by omega]
        at this
      have hs₃ := hh.afterDelegationModified _ _ _ _ h₃
      exact ⟨hs₃ ▸ this, by rw [hs₃]; rfl⟩
  have hv₃ : getValidator s₃ valAddr = some validator₂ := by
    simpa [getValidator, hvals₃] using hv₂
  have hv₃' : s₃.store.validators.lookup valAddr = some validator₂ := hv₃
  -- the validator gives up the shares, with the tokens they are worth
  have hle' : shares.int ≤ validator₂.delegatorShares.int := by
    have := hb.shares_eq _ _ hv'
    have := hb.delegation_le hd'
    rw [hS₂]
    simp only [Pi.zero_apply, add_zero] at *
    omega
  obtain ⟨hc, -, -, hvals₄, -, -, -⟩ := updateValidator_spec hrem
  obtain ⟨tokens, dShares, rfl, -, hds, hT, hTS, hamt⟩ := Validator.removeDelShares_spec hc
    (hb₃.tokens_nonneg _ _ hv₃') (hb₃.tokens_le_shares _ _ hv₃') hle'
  have hb₄ := hb₃.updateValidator hv₃ hrem hT hTS
  rw [Function.update_idem, Function.update_self, update_zero_eq_zero (by simp only; omega)] at hb₄
  have hv₄ : getValidator s₄ valAddr = some { validator₂ with tokens, delegatorShares := dShares } := by
    simp [getValidator, hvals₄]
  have hframe₄ : ∀ a, a ≠ valAddr → getValidator s₄ a = getValidator s a := by
    intro a ha
    have h₂ := hframe₂ a ha
    simp only [getValidator, hs₁] at h₂
    simp [getValidator, hvals₄, hvals₃, AList.lookup_insert_ne ha, h₂]
  -- a validator left unbonded with no shares is removed
  refine ⟨?_, hamt, fun a ha => ?_⟩
  · rcases hfin with ⟨hz, -, h₅⟩ | ⟨-, rfl⟩
    · exact hb₄.removeValidator hh (fun v hv => by rw [hv₄] at hv; cases hv; exact hz) rfl h₅
    · exact hb₄
  · rcases hfin with ⟨-, -, h₅⟩ | ⟨-, rfl⟩
    · rw [removeValidator_frame hh h₅ ha, hframe₄ a ha]
    · exact hframe₄ a ha

/-- The shares `ValidateUnbondAmount` returns for an amount that is not negative are not
negative. -/
theorem validateUnbondAmount_nonneg (hb : Books s.store 0) {amt : SdkInt} {shares : Dec}
    (ha : 0 ≤ amt.i) (h : validateUnbondAmount s delAddr valAddr amt = some shares) :
    0 ≤ shares.int := by
  unfold validateUnbondAmount at h
  obtain ⟨validator, hv, h⟩ := Option.bind_eq_some_iff.1 h
  obtain ⟨delShares, hd, h⟩ := Option.bind_eq_some_iff.1 h
  obtain ⟨shares₁, h₁, h⟩ := Option.bind_eq_some_iff.1 h
  obtain ⟨sharesTruncated, -, h⟩ := Option.bind_eq_some_iff.1 h
  split at h
  · cases h
  · cases h
    have hdpos := hb.delegation_pos _ _ hd
    obtain ⟨hT0, hq⟩ := Validator.sharesFromTokens_int h₁
    have hS := hb.shares_nonneg hv
    have hT := hb.tokens_nonneg _ _ hv
    have h₁0 : 0 ≤ shares₁.int := by
      rw [hq]
      exact Int.tdiv_nonneg (by positivity) hT
    split_ifs
    · exact hdpos.le
    · exact h₁0

/-- The steps of `Undelegate`: the shares are unbonded, then the move of the tokens to the
not-bonded pool writes the supply only, and the entry and its queue slot write neither the
validators, the delegations, the power index nor the redelegations. -/
theorem undelegate_steps {ctx : Context} {sharesAmount : Dec} {completionTime : Nat}
    (h : undelegate hooks toLower permAddrs ctx s delAddr valAddr sharesAmount =
      some (s', completionTime)) :
    ∃ s₁ returnAmount, unbond hooks s delAddr valAddr sharesAmount = some (s₁, returnAmount) ∧
      s'.ext = s₁.ext ∧ s'.store.validators = s₁.store.validators ∧
      s'.store.delegations = s₁.store.delegations ∧
      s'.store.validatorsByPower = s₁.store.validatorsByPower ∧
      s'.store.redelegations = s₁.store.redelegations := by
  unfold Staking.undelegate at h
  obtain ⟨validator, -, h⟩ := Option.bind_eq_some_iff.1 h
  split at h
  · cases h
  obtain ⟨⟨s₁, returnAmount⟩, h₁, h⟩ := Option.bind_eq_some_iff.1 h
  dsimp -zeta only at h
  extract_lets tail at h
  obtain ⟨s₂, hs₂, h⟩ : ∃ s₂, s₂ = { s₁ with supply := s₂.supply } ∧
      tail s₂ = some (s', completionTime) := by
    split at h
    · obtain ⟨s₂, h₂, h⟩ := Option.bind_eq_some_iff.1 h
      exact ⟨s₂, transferPoolTokens_supply h₂, h⟩
    · exact ⟨s₁, rfl, h⟩
  simp only [tail] at h
  cases h
  rw [hs₂]
  exact ⟨s₁, returnAmount, h₁, rfl, rfl, rfl, rfl, rfl⟩

theorem Books.undelegate (hh : hooks.KeepStore) (hb : Books s.store 0) {ctx : Context}
    {sharesAmount : Dec} {completionTime : Nat}
    (h : undelegate hooks toLower permAddrs ctx s delAddr valAddr sharesAmount =
      some (s', completionTime)) : Books s'.store 0 := by
  obtain ⟨s₁, returnAmount, h₁, -, hv, hd, hi, hr⟩ := undelegate_steps h
  exact (hb.unbond hh h₁).1.of_eq hv hd hi hr

theorem Books.setRedelegation (hb : Books s.store owed) {valSrcAddr valDstAddr : ValAddress}
    {entries : List RedelegationEntry} (hne : valSrcAddr ≠ valDstAddr) :
    Books (setRedelegation s delAddr valSrcAddr valDstAddr entries).store owed :=
  { hb with
    redelegation_ne := fun key es hk => by
      change (s.store.redelegations.insert _ _).lookup key = some es at hk
      rw [Ledger.lookup_insert_ite] at hk
      split_ifs at hk with h
      · subst h
        exact hne
      · exact hb.redelegation_ne key es hk }

theorem Books.removeRedelegation (hb : Books s.store owed) {valSrcAddr valDstAddr : ValAddress} :
    Books (removeRedelegation s delAddr valSrcAddr valDstAddr).store owed :=
  { hb with
    redelegation_ne := fun key es hk => hb.redelegation_ne key es (Ledger.lookup_of_lookup_erase hk) }

/-- The steps of `BeginRedelegation`: the shares are unbonded from a source that is not the
destination, the tokens, which are not zero, are delegated to the destination, and the entry and
its queue slot are written unless the source is unbonded. -/
theorem beginRedelegation_steps {ctx : Context} {valSrcAddr valDstAddr : ValAddress}
    {sharesAmount : Dec} {completionTime : Nat}
    (h : beginRedelegation hooks toLower permAddrs ctx s delAddr valSrcAddr valDstAddr
      sharesAmount = some (s', completionTime)) :
    valSrcAddr ≠ valDstAddr ∧ ∃ (dstValidator srcValidator : Validator) (s₁ s₂ : State σ)
      (returnAmount : SdkInt) (sharesCreated : Dec),
      getValidator s valDstAddr = some dstValidator ∧
      unbond hooks s delAddr valSrcAddr sharesAmount = some (s₁, returnAmount) ∧
      returnAmount.isZero = false ∧
      delegate hooks toLower permAddrs ctx.blockTime s₁ delAddr returnAmount srcValidator.status
        valDstAddr dstValidator false = some (s₂, sharesCreated) ∧
      (s' = s₂ ∨ ∃ entries, s' = insertRedelegationQueue
        (setRedelegation s₂ delAddr valSrcAddr valDstAddr entries) delAddr valSrcAddr valDstAddr
        completionTime) := by
  unfold Staking.beginRedelegation at h
  split at h
  · cases h
  next hne =>
  obtain ⟨dstValidator, hdst, h⟩ := Option.bind_eq_some_iff.1 h
  obtain ⟨srcValidator, -, h⟩ := Option.bind_eq_some_iff.1 h
  split at h
  · cases h
  split at h
  · cases h
  obtain ⟨⟨s₁, returnAmount⟩, h₁, h⟩ := Option.bind_eq_some_iff.1 h
  dsimp -zeta only at h
  split at h
  · cases h
  next hz =>
  obtain ⟨⟨s₂, sharesCreated⟩, h₂, h⟩ := Option.bind_eq_some_iff.1 h
  refine ⟨hne, dstValidator, srcValidator, s₁, s₂, returnAmount, sharesCreated, hdst, h₁,
    Bool.eq_false_iff.2 hz, h₂, ?_⟩
  -- the source's status decides whether the redelegation completes at once
  dsimp -zeta only at h
  split at h
  · cases h
    exact Or.inl rfl
  · cases h
    exact Or.inr ⟨_, rfl⟩

theorem Books.beginRedelegation (hh : hooks.KeepStore) (hb : Books s.store 0) {ctx : Context}
    {valSrcAddr valDstAddr : ValAddress} {sharesAmount : Dec} (hs : 0 ≤ sharesAmount.int)
    {completionTime : Nat}
    (h : beginRedelegation hooks toLower permAddrs ctx s delAddr valSrcAddr valDstAddr
      sharesAmount = some (s', completionTime)) : Books s'.store 0 := by
  obtain ⟨hne, dstValidator, srcValidator, s₁, s₂, returnAmount, sharesCreated, hdst, h₁, hz, h₂,
    hfin⟩ := beginRedelegation_steps h
  obtain ⟨hb₁, hamt, hframe⟩ := hb.unbond hh h₁
  -- the destination is untouched by the unbonding from the source
  have hdst₁ : getValidator s₁ valDstAddr = some dstValidator := by
    rw [hframe valDstAddr (Ne.symm hne), hdst]
  have hpos : 0 < returnAmount.i := by
    have := hamt hs
    have hz' : returnAmount.i ≠ 0 := fun h0 => by
      rw [(SdkInt.isZero_iff _).2 h0] at hz
      cases hz
    omega
  have hb₂ := (hb₁.delegate hh hdst₁ hpos h₂).1
  rcases hfin with rfl | ⟨entries, rfl⟩
  · exact hb₂
  · exact (hb₂.setRedelegation hne).of_eq rfl rfl rfl rfl

/-- Paying out mature unbonding entries moves coins only. -/
theorem completeUnbondingEntries_store {ctx : Context} :
    ∀ {entries entries' : List UnbondingDelegationEntry} {s s' : State σ},
      completeUnbondingEntries toLower permAddrs ctx delAddr s entries = some (s', entries') →
        s'.store = s.store ∧ s'.ext = s.ext
  | [], _, _, _, h => by
    cases h
    exact ⟨rfl, rfl⟩
  | entry :: entries, _, s, s', h => by
    unfold completeUnbondingEntries at h
    split at h
    · extract_lets tail at h
      obtain ⟨s₁, hs₁, he₁, h⟩ : ∃ s₁, s₁.store = s.store ∧ s₁.ext = s.ext ∧ tail s₁ = some (s', _) := by
        split at h
        · exact ⟨s, rfl, rfl, h⟩
        · obtain ⟨amt, -, h⟩ := Option.bind_eq_some_iff.1 h
          obtain ⟨supply, -, h⟩ := Option.bind_eq_some_iff.1 h
          exact ⟨{ s with supply }, rfl, rfl, h⟩
      obtain ⟨hs', he'⟩ := completeUnbondingEntries_store h
      exact ⟨hs'.trans hs₁, he'.trans he₁⟩
    · obtain ⟨⟨s₁, entries₁⟩, h₁, h⟩ := Option.bind_eq_some_iff.1 h
      cases h
      exact completeUnbondingEntries_store h₁

theorem Books.completeUnbonding (hb : Books s.store owed) {ctx : Context}
    (h : completeUnbonding toLower permAddrs ctx s delAddr valAddr = some s') :
    Books s'.store owed := by
  unfold Staking.completeUnbonding at h
  obtain ⟨entries, -, h⟩ := Option.bind_eq_some_iff.1 h
  obtain ⟨⟨s₁, entries₁⟩, h₁, h⟩ := Option.bind_eq_some_iff.1 h
  have hb₁ : Books s₁.store owed := (completeUnbondingEntries_store h₁).1.symm ▸ hb
  dsimp -zeta only at h
  split at h <;> cases h <;> exact hb₁.of_eq rfl rfl rfl rfl

theorem Books.completeRedelegation (hb : Books s.store owed) {ctx : Context}
    {valSrcAddr valDstAddr : ValAddress}
    (h : completeRedelegation ctx s delAddr valSrcAddr valDstAddr = some s') :
    Books s'.store owed := by
  unfold Staking.completeRedelegation at h
  obtain ⟨entries, hentries, h⟩ := Option.bind_eq_some_iff.1 h
  dsimp only at h
  split at h <;> cases h
  · exact hb.removeRedelegation
  · exact hb.setRedelegation (hb.redelegation_ne _ _ hentries)

end Barkis.Staking
