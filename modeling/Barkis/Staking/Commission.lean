import Barkis.Staking.Handler
import Barkis.Staking.Books
import Barkis.Lib.Check

/-!
# Commissions

`x/staking/types/commission.go`, and the commission parts of `MsgCreateValidator` and
`MsgEditValidator`. `Validator` leaves the commission out, so each validator's commission is kept
beside the staking state, by operator address (`WithCommission.State`). `CommissionRates.Validate`
bounds the rates when the validator is created. `ValidateNewRate` bounds each later change, and
requires 24 hours since the last one.

* `moves_step`: one message leaves an address's commission as it was, creates it within its
  limits, or changes it as `Commission.Follows` says.
* `commission_limits`: over every run of the two messages, every commission stays within its limits,
  and the commissions an address takes follow one another.
-/

namespace Barkis.Staking

open Bank Supply

/-- `CommissionRates`. -/
structure CommissionRates where
  rate : Dec
  maxRate : Dec
  maxChangeRate : Dec
  deriving DecidableEq

/-- `Commission`: the rates, and the block time of their last change. -/
structure Commission extends CommissionRates where
  updateTime : Nat
  deriving DecidableEq

/-- `NewCommissionWithTime`. -/
def newCommissionWithTime (rate maxRate maxChangeRate : Dec) (updatedAt : Nat) : Commission :=
  ⟨⟨rate, maxRate, maxChangeRate⟩, updatedAt⟩

/-- `CommissionRates.Validate`. -/
def CommissionRates.validate (c : CommissionRates) : Except String Unit := do
  if c.maxRate < Dec.zeroDec then throw "commission must be positive"
  if Dec.oneDec < c.maxRate then throw "commission cannot be more than 100%"
  if c.rate < Dec.zeroDec then throw "commission must be positive"
  if c.maxRate < c.rate then throw "commission cannot be more than the max rate"
  if c.maxChangeRate < Dec.zeroDec then throw "commission change rate must be positive"
  if c.maxRate < c.maxChangeRate then
    throw "commission change rate cannot be more than the max rate"

/-- `Commission.ValidateNewRate`; `none` is the panic of `Sub` past the `Dec` bound.
`blockTime.Sub(c.UpdateTime).Hours() < 24` is a comparison of nanoseconds: `Hours` adds to the
whole hours a fraction below one, and `Sub` saturates with the sign kept. -/
def Commission.validateNewRate (c : Commission) (newRate : Dec) (blockTime : Nat) :
    Option (Except String Unit) :=
  if (blockTime : Int) - c.updateTime < 24 * 3600 * 10 ^ 9 then
    some (throw "commission cannot be changed more than once in 24h")
  else if newRate < Dec.zeroDec then some (throw "commission must be positive")
  else if c.maxRate < newRate then some (throw "commission cannot be more than the max rate")
  else (newRate.sub c.rate).map fun change =>
    if c.maxChangeRate < change then throw "commission cannot be changed more than max change rate"
    else pure ()

/-- `UpdateValidatorCommission`, on the validator's commission. -/
def updateValidatorCommission (ctx : Context) (commission : Commission) (newRate : Dec) :
    Option (Except String Commission) :=
  (commission.validateNewRate newRate ctx.time).map fun r =>
    r.map fun _ => { commission with rate := newRate, updateTime := ctx.time }

namespace WithCommission

/-- The staking state with each validator's commission. -/
structure State (σ : Type) where
  staking : Staking.State σ
  commissions : AList fun _ : ValAddress => Commission

/-- `MsgCreateValidator` and `MsgEditValidator`, with their commissions. -/
inductive Msg
  | createValidator (delegatorAddress : AccAddress) (validatorAddress : ValAddress) (value : Coin)
      (minSelfDelegation : SdkInt) (commission : CommissionRates)
  | editValidator (validatorAddress : ValAddress) (commissionRate : Option Dec)
      (minSelfDelegation : Option SdkInt)

namespace Msg

/-- The message without its commission. -/
def toStaking : Msg → Staking.Msg
  | .createValidator delegatorAddress validatorAddress value minSelfDelegation _ =>
    .createValidator delegatorAddress validatorAddress value minSelfDelegation
  | .editValidator validatorAddress _ minSelfDelegation =>
    .editValidator validatorAddress minSelfDelegation

/-- `ValidateBasic`. The check that the commission is included compares its `Dec`s' pointers to
`nil`, which a decoded `Dec` never is, and is left out. -/
def validateBasic : Msg → Bool
  | msg@(.createValidator _ _ _ _ commission) =>
    msg.toStaking.validateBasic && commission.validate.isOk
  | msg@(.editValidator _ commissionRate _) =>
    msg.toStaking.validateBasic &&
      commissionRate.all fun rate => !decide (Dec.oneDec < rate) && !decide (rate < Dec.zeroDec)

end Msg

variable {σ : Type} (hooks : Hooks σ) (toLower : String → String)
  (permAddrs : String → Option PermissionsForAddress)

/-- `handleMsgCreateValidator`: `SetInitialCommission` validates the rates, and the commission
starts at the block time. Every check of the handler fails the whole message, so taking the
commission's first changes only which error is returned. -/
def handleMsgCreateValidator (ctx : Context) (s : State σ) (delegatorAddress : AccAddress)
    (validatorAddress : ValAddress) (value : Coin) (minSelfDelegation : SdkInt)
    (commission : CommissionRates) : Option (State σ) :=
  match commission.validate with
  | .error _ => none
  | .ok () =>
    (Staking.handleMsgCreateValidator hooks toLower permAddrs ctx s.staking delegatorAddress
      validatorAddress value minSelfDelegation).map fun staking =>
      ⟨staking, s.commissions.insert validatorAddress
        (newCommissionWithTime commission.rate commission.maxRate commission.maxChangeRate
          ctx.time)⟩

/-- The commission part of `handleMsgEditValidator`: a new rate goes through
`UpdateValidatorCommission`, then the `BeforeValidatorModified` hook runs. -/
def editCommission (ctx : Context) (s : Staking.State σ) (validatorAddress : ValAddress)
    (commission : Commission) : Option Dec → Option (Staking.State σ × Commission)
  | none => some (s, commission)
  | some newRate =>
    match updateValidatorCommission ctx commission newRate with
    | some (.ok commission) =>
      (hooks.beforeValidatorModified s validatorAddress).map fun s => (s, commission)
    | _ => none

/-- The minimum self-delegation part of `handleMsgEditValidator`: it can only rise, and not above
the validator's tokens. -/
def editMinSelfDelegation (validator : Validator) : Option SdkInt → Option Validator
  | none => some validator
  | some min =>
    if min.i ≤ validator.minSelfDelegation.i then none
    else if validator.tokens.i < min.i then none
    else some { validator with minSelfDelegation := min }

/-- `handleMsgEditValidator`, the description left out. The validator is read once, and the
commission is changed before the minimum self-delegation is checked. A failed check writes
nothing. -/
def handleMsgEditValidator (ctx : Context) (s : State σ) (validatorAddress : ValAddress)
    (commissionRate : Option Dec) (minSelfDelegation : Option SdkInt) : Option (State σ) := do
  let validator ← getValidator s.staking validatorAddress
  let commission ← s.commissions.lookup validatorAddress
  let (staking, commission) ←
    editCommission hooks ctx s.staking validatorAddress commission commissionRate
  let validator ← editMinSelfDelegation validator minSelfDelegation
  pure ⟨setValidator staking validatorAddress validator,
    s.commissions.insert validatorAddress commission⟩

/-- A message delivered at a block header. -/
def step (ctx : Context) (s : State σ) (msg : Msg) : Option (State σ) :=
  if msg.validateBasic && msg.toStaking.getSigners.all (·.length == addrLen) then
    match msg with
    | .createValidator delegatorAddress validatorAddress value minSelfDelegation commission =>
      handleMsgCreateValidator hooks toLower permAddrs ctx s delegatorAddress validatorAddress value
        minSelfDelegation commission
    | .editValidator validatorAddress commissionRate minSelfDelegation =>
      handleMsgEditValidator hooks ctx s validatorAddress commissionRate minSelfDelegation
  else none

/-- A run; a message that fails leaves the state as it was. -/
def run (s : State σ) (msgs : List (Context × Msg)) : State σ :=
  msgs.foldl (fun s msg => (step hooks toLower permAddrs msg.1 s msg.2).getD s) s

end WithCommission

/-! ## The limits -/

/-- `0 ≤ Rate ≤ MaxRate ≤ 1` and `0 ≤ MaxChangeRate ≤ MaxRate`. -/
structure Commission.WithinLimits (c : Commission) : Prop where
  rate_nonneg : 0 ≤ c.rate.int
  rate_le_maxRate : c.rate.int ≤ c.maxRate.int
  maxRate_le_one : c.maxRate.int ≤ Dec.oneDec.int
  maxChangeRate_nonneg : 0 ≤ c.maxChangeRate.int
  maxChangeRate_le_maxRate : c.maxChangeRate.int ≤ c.maxRate.int

/-- `c'` is a change of `c`: 24 hours later at least, under the same maximum rates, with the rate
between zero and the maximum and up by at most `MaxChangeRate`. -/
structure Commission.Follows (c c' : Commission) : Prop where
  maxRate_eq : c'.maxRate = c.maxRate
  maxChangeRate_eq : c'.maxChangeRate = c.maxChangeRate
  later : c.updateTime + 24 * 3600 * 10 ^ 9 ≤ c'.updateTime
  rate_nonneg : 0 ≤ c'.rate.int
  rate_le_maxRate : c'.rate.int ≤ c.maxRate.int
  rate_rise : c'.rate.int - c.rate.int ≤ c.maxChangeRate.int

theorem Commission.WithinLimits.follows {c c' : Commission} (hc : c.WithinLimits)
    (h : c.Follows c') : c'.WithinLimits := by
  obtain ⟨hmax, hchange, -, h0, hle, -⟩ := h
  exact ⟨h0, hmax ▸ hle, hmax ▸ hc.maxRate_le_one, hchange ▸ hc.maxChangeRate_nonneg,
    hchange ▸ hmax ▸ hc.maxChangeRate_le_maxRate⟩

theorem Commission.Follows.ne {c c' : Commission} (h : c.Follows c') : c ≠ c' := by
  rintro rfl
  have := h.later
  omega

/-- What one message may do to an address's commission, at block time `t`. -/
inductive Moves (t : Nat) : Option Commission → Option Commission → Prop
  | keep (o : Option Commission) : Moves t o o
  | create (c : Commission) : c.WithinLimits → c.updateTime = t → Moves t none (some c)
  | change (c c' : Commission) : c.Follows c' → c'.updateTime = t → Moves t (some c) (some c')

/-- The entry a message adds to an address's history: its new commission, if it changed. -/
def changeAt (t : Nat) (before : Option Commission) : Option Commission → List (Nat × Commission)
  | some c => if before = some c then [] else [(t, c)]
  | none => []

/-- An address's commission, with the time it was set. -/
def startOf (o : Option Commission) : List (Nat × Commission) :=
  o.toList.map fun c => (c.updateTime, c)

section Moves

variable {t : Nat} {o o' : Option Commission}

theorem Moves.withinLimits (hm : Moves t o o') (h : ∀ c, o = some c → c.WithinLimits) :
    ∀ c', o' = some c' → c'.WithinLimits := by
  cases hm with
  | keep => exact h
  | create c hc _ =>
    rintro c' ⟨⟩
    exact hc
  | change c c' hf _ =>
    rintro c'' ⟨⟩
    exact (h c rfl).follows hf

theorem Moves.updateTime (hm : Moves t o o') : ∀ x ∈ changeAt t o o', x.2.updateTime = x.1 := by
  cases hm with
  | keep o =>
    cases o <;> simp [changeAt]
  | create c _ ht => simp [changeAt, ht]
  | change c c' hf ht => simp [changeAt, hf.ne, ht]

/-- One message's entry extends the history as `Follows` says. -/
theorem Moves.chain (hm : Moves t o o') {l : List (Nat × Commission)}
    (h : (startOf o' ++ l).IsChain fun a b => a.2.Follows b.2) :
    (startOf o ++ (changeAt t o o' ++ l)).IsChain fun a b => a.2.Follows b.2 := by
  cases hm with
  | keep o =>
    cases o <;> simpa [changeAt] using h
  | create c _ ht =>
    simpa [startOf, changeAt, ht] using h
  | change c c' hf ht =>
    simp only [startOf, changeAt, Option.some_inj, hf.ne, if_false, Option.toList_some,
      List.map_cons, List.map_nil, List.cons_append, List.nil_append,
      ht] at h ⊢
    exact List.IsChain.cons_cons hf h

end Moves

/-! ## The checks -/

theorem CommissionRates.withinLimits_of_validate {c : CommissionRates}
    (h : c.validate.isOk = true) (t : Nat) :
    (newCommissionWithTime c.rate c.maxRate c.maxChangeRate t).WithinLimits := by
  simp only [CommissionRates.validate, Check.isOk_ite_throw_bind, Check.isOk_ite_throw] at h
  obtain ⟨-, h2, h3, h4, h5, h6⟩ := h
  -- `Dec`s compare as their integers
  change ¬Dec.oneDec.int < c.maxRate.int at h2
  change ¬c.rate.int < 0 at h3
  change ¬c.maxRate.int < c.rate.int at h4
  change ¬c.maxChangeRate.int < 0 at h5
  change ¬c.maxRate.int < c.maxChangeRate.int at h6
  exact ⟨Int.not_lt.1 h3, Int.not_lt.1 h4, Int.not_lt.1 h2, Int.not_lt.1 h5, Int.not_lt.1 h6⟩

theorem updateValidatorCommission_eq_ok {ctx : Context} {c c' : Commission} {newRate : Dec}
    (h : updateValidatorCommission ctx c newRate = some (.ok c')) :
    c.Follows c' ∧ c'.updateTime = ctx.time := by
  unfold updateValidatorCommission Commission.validateNewRate at h
  split_ifs at h with hday hneg hmax
  · cases h
  · cases h
  · cases h
  obtain ⟨r, hr, h⟩ := Option.map_eq_some_iff.1 h
  obtain ⟨change, hchange, rfl⟩ := Option.map_eq_some_iff.1 hr
  split_ifs at h with hrise
  · cases h
  cases h
  have hsub := (Dec.sub_eq_some.1 hchange).1
  change ¬newRate.int < 0 at hneg
  change ¬c.maxRate.int < newRate.int at hmax
  change ¬c.maxChangeRate.int < change.int at hrise
  refine ⟨⟨rfl, rfl, ?_, ?_, ?_, ?_⟩, rfl⟩ <;> dsimp only <;> omega

/-! ## The staking side -/

section Staking

variable {σ : Type} {hooks : Hooks σ} {toLower : String → String}
  {permAddrs : String → Option PermissionsForAddress} {blockTime : Int64} {ctx : Context}
  {s s' : Staking.State σ}

theorem delegate_validators (hh : hooks.KeepStore) {delAddr : AccAddress} {bondAmt : SdkInt}
    {tokenSrc : BondStatus} {valAddr : ValAddress} {validator : Validator}
    {subtractAccount : Bool} {newShares : Dec}
    (h : delegate hooks toLower permAddrs blockTime s delAddr bondAmt tokenSrc valAddr validator
      subtractAccount = some (s', newShares)) :
    ∃ validator', s'.store.validators = s.store.validators.insert valAddr validator' := by
  obtain ⟨-, s₂, s₃, validator', shares, hs₂, hadd, -, h₄⟩ := delegate_eq_some hh h
  obtain ⟨-, -, -, hvals, -⟩ := updateValidator_spec hadd
  refine ⟨validator', ?_⟩
  rw [hh.afterDelegationModified _ _ _ _ h₄]
  simp [Staking.setDelegation, hvals, hs₂]

variable {delegatorAddress : AccAddress} {validatorAddress : ValAddress} {value : Coin}
  {minSelfDelegation : SdkInt}

/-- `MsgCreateValidator` adds its validator, to no stored one, and keeps the others. -/
theorem mem_validators_handleMsgCreateValidator (hh : hooks.KeepStore)
    (h : Staking.handleMsgCreateValidator hooks toLower permAddrs ctx s delegatorAddress
      validatorAddress value minSelfDelegation = some s') :
    getValidator s validatorAddress = none ∧
      ∀ a, a ∈ s'.store.validators ↔ a = validatorAddress ∨ a ∈ s.store.validators := by
  unfold Staking.handleMsgCreateValidator at h
  split at h
  · cases h
  next hfree =>
  split at h
  · cases h
  obtain ⟨s₁, h₁, h⟩ := Option.bind_eq_some_iff.1 h
  obtain ⟨s₂, h₂, h⟩ := Option.bind_eq_some_iff.1 h
  obtain ⟨⟨s₃, newShares⟩, h₃, h⟩ := Option.bind_eq_some_iff.1 h
  cases h
  refine ⟨by simpa using hfree, fun a => ?_⟩
  obtain ⟨validator', hvals⟩ := delegate_validators hh h₃
  obtain ⟨k, -, rfl⟩ := Option.map_eq_some_iff.1 h₁
  rw [hvals, hh.afterValidatorCreated _ _ _ h₂]
  simp only [Staking.setValidator, State.modify_store, AList.mem_insert]
  tauto

end Staking

namespace WithCommission

variable {σ : Type} {hooks : Hooks σ} {toLower : String → String}
  {permAddrs : String → Option PermissionsForAddress} {ctx : Context} {s s' : State σ}
  {staking' : Staking.State σ}

/-- Every validator has its commission, and every commission is within its limits. -/
structure Limits (s : State σ) : Prop where
  synced : ∀ addr, addr ∈ s.commissions ↔ addr ∈ s.staking.store.validators
  within : ∀ addr c, s.commissions.lookup addr = some c → c.WithinLimits

variable {delegatorAddress : AccAddress} {validatorAddress : ValAddress} {value : Coin}
  {minSelfDelegation : SdkInt} {commission : CommissionRates}

theorem handleMsgCreateValidator_eq_some (hh : hooks.KeepStore)
    (h : handleMsgCreateValidator hooks toLower permAddrs ctx s delegatorAddress validatorAddress
      value minSelfDelegation commission = some s') :
    commission.validate.isOk = true ∧ getValidator s.staking validatorAddress = none ∧
      s'.commissions = s.commissions.insert validatorAddress
        (newCommissionWithTime commission.rate commission.maxRate commission.maxChangeRate
          ctx.time) ∧
      ∀ a, a ∈ s'.staking.store.validators ↔ a = validatorAddress ∨ a ∈ s.staking.store.validators := by
  unfold handleMsgCreateValidator at h
  split at h
  · cases h
  next hok =>
  obtain ⟨staking, hst, rfl⟩ := Option.map_eq_some_iff.1 h
  obtain ⟨hfree, hmem⟩ := mem_validators_handleMsgCreateValidator hh hst
  exact ⟨by rw [hok]; rfl, hfree, rfl, hmem⟩

theorem editCommission_eq_some (hh : hooks.KeepStore) {st : Staking.State σ}
    {commissionRate : Option Dec} {c c' : Commission}
    (h : editCommission hooks ctx st validatorAddress c commissionRate = some (staking', c')) :
    staking'.store = st.store ∧
      (c' = c ∨ ∃ newRate, updateValidatorCommission ctx c newRate = some (.ok c')) := by
  cases commissionRate with
  | none =>
    cases h
    exact ⟨rfl, Or.inl rfl⟩
  | some newRate =>
    simp only [editCommission] at h
    split at h
    next c'' hup =>
      obtain ⟨staking'', h₁, h⟩ := Option.map_eq_some_iff.1 h
      cases h
      exact ⟨hh.beforeValidatorModified _ _ _ h₁, Or.inr ⟨newRate, hup⟩⟩
    · cases h

theorem handleMsgEditValidator_eq_some (hh : hooks.KeepStore) {commissionRate : Option Dec}
    {minSelfDelegation : Option SdkInt}
    (h : handleMsgEditValidator hooks ctx s validatorAddress commissionRate minSelfDelegation =
      some s') :
    ∃ c c', s.commissions.lookup validatorAddress = some c ∧
      s'.commissions = s.commissions.insert validatorAddress c' ∧
      (c' = c ∨ ∃ newRate, updateValidatorCommission ctx c newRate = some (.ok c')) ∧
      ∀ a, a ∈ s'.staking.store.validators ↔ a ∈ s.staking.store.validators := by
  unfold handleMsgEditValidator at h
  obtain ⟨validator, hv, h⟩ := Option.bind_eq_some_iff.1 h
  obtain ⟨c, hc, h⟩ := Option.bind_eq_some_iff.1 h
  obtain ⟨⟨staking, c'⟩, hedit, h⟩ := Option.bind_eq_some_iff.1 h
  obtain ⟨hstore, hc'⟩ := editCommission_eq_some hh hedit
  obtain ⟨validator', -, h⟩ := Option.bind_eq_some_iff.1 h
  cases h
  refine ⟨c, c', hc, rfl, hc', fun a => ?_⟩
  have hv' : s.staking.store.validators.lookup validatorAddress = some validator := hv
  have hmem : validatorAddress ∈ s.staking.store.validators :=
    AList.lookup_isSome.1 (by rw [hv']; rfl)
  simp only [setValidator, State.modify_store, hstore, AList.mem_insert]
  constructor
  · rintro (rfl | ha)
    · exact hmem
    · exact ha
  · exact Or.inr

theorem moves_handleMsgCreateValidator (hh : hooks.KeepStore) (hs : Limits s)
    (h : handleMsgCreateValidator hooks toLower permAddrs ctx s delegatorAddress validatorAddress
      value minSelfDelegation commission = some s') :
    (∀ addr, addr ∈ s'.commissions ↔ addr ∈ s'.staking.store.validators) ∧
      ∀ addr, Moves ctx.time (s.commissions.lookup addr) (s'.commissions.lookup addr) := by
  obtain ⟨hok, hfree, hcs, hvals⟩ := handleMsgCreateValidator_eq_some hh h
  -- the new validator had no commission, as it was not stored
  have hnone : s.commissions.lookup validatorAddress = none :=
    AList.lookup_eq_none.2 fun hm => AList.lookup_eq_none.1 hfree ((hs.synced _).1 hm)
  refine ⟨fun a => ?_, fun a => ?_⟩
  · rw [hcs, AList.mem_insert, hvals, hs.synced]
  · rw [hcs]
    by_cases ha : a = validatorAddress
    · subst ha
      rw [AList.lookup_insert, hnone]
      exact .create _ (CommissionRates.withinLimits_of_validate hok _) rfl
    · rw [AList.lookup_insert_ne ha]
      exact .keep _

theorem moves_handleMsgEditValidator (hh : hooks.KeepStore) (hs : Limits s)
    {commissionRate : Option Dec} {minSelfDelegation : Option SdkInt}
    (h : handleMsgEditValidator hooks ctx s validatorAddress commissionRate minSelfDelegation =
      some s') :
    (∀ addr, addr ∈ s'.commissions ↔ addr ∈ s'.staking.store.validators) ∧
      ∀ addr, Moves ctx.time (s.commissions.lookup addr) (s'.commissions.lookup addr) := by
  obtain ⟨c, c', hc, hcs, hc', hvals⟩ := handleMsgEditValidator_eq_some hh h
  have hmem : validatorAddress ∈ s.commissions := AList.lookup_isSome.1 (by rw [hc]; rfl)
  refine ⟨fun a => ?_, fun a => ?_⟩
  · rw [hcs, AList.mem_insert, hvals, ← hs.synced]
    constructor
    · rintro (rfl | ha)
      · exact hmem
      · exact ha
    · exact Or.inr
  · rw [hcs]
    by_cases ha : a = validatorAddress
    · subst ha
      rw [AList.lookup_insert, hc]
      rcases hc' with rfl | ⟨newRate, hup⟩
      · exact .keep _
      · obtain ⟨hf, ht⟩ := updateValidatorCommission_eq_ok hup
        exact .change _ _ hf ht
    · rw [AList.lookup_insert_ne ha]
      exact .keep _

/-- A delivered message keeps the limits, and moves each address's commission as `Moves`
says; a message that fails keeps the state. -/
theorem moves_step (hh : hooks.KeepStore) (hs : Limits s) (ctx : Context) (msg : Msg) :
    let s' := (step hooks toLower permAddrs ctx s msg).getD s
    Limits s' ∧ ∀ addr, Moves ctx.time (s.commissions.lookup addr) (s'.commissions.lookup addr) := by
  intro s'
  have hmoves : (∀ addr, addr ∈ s'.commissions ↔ addr ∈ s'.staking.store.validators) ∧
      ∀ addr, Moves ctx.time (s.commissions.lookup addr) (s'.commissions.lookup addr) := by
    cases h : step hooks toLower permAddrs ctx s msg with
    | none =>
      simp only [s', h, Option.getD_none]
      exact ⟨hs.synced, fun _ => .keep _⟩
    | some s₁ =>
      simp only [s', h, Option.getD_some]
      unfold step at h
      split_ifs at h
      cases msg with
      | createValidator => exact moves_handleMsgCreateValidator hh hs h
      | editValidator => exact moves_handleMsgEditValidator hh hs h
  exact ⟨⟨hmoves.1, fun addr => (hmoves.2 addr).withinLimits (hs.within addr)⟩, hmoves.2⟩

end WithCommission

namespace WithCommission

variable {σ : Type}

/-- The commissions an address takes over a run, each with the block time of the message that
set it. -/
def history (hooks : Hooks σ) (toLower : String → String)
    (permAddrs : String → Option PermissionsForAddress) (addr : ValAddress) :
    State σ → List (Context × Msg) → List (Nat × Commission)
  | _, [] => []
  | s, (ctx, msg) :: msgs =>
    let s' := (step hooks toLower permAddrs ctx s msg).getD s
    changeAt ctx.time (s.commissions.lookup addr) (s'.commissions.lookup addr) ++
      history hooks toLower permAddrs addr s' msgs

variable {hooks : Hooks σ} {toLower : String → String}
  {permAddrs : String → Option PermissionsForAddress}

theorem commission_limits (hh : hooks.KeepStore) {s : State σ} (hs : Limits s)
    (msgs : List (Context × Msg)) (addr : ValAddress) :
    Limits (run hooks toLower permAddrs s msgs) ∧
      (startOf (s.commissions.lookup addr) ++ history hooks toLower permAddrs addr s msgs).IsChain
        (fun a b => a.2.Follows b.2) ∧
      ∀ x ∈ history hooks toLower permAddrs addr s msgs, x.2.updateTime = x.1 := by
  induction msgs generalizing s with
  | nil =>
    refine ⟨hs, ?_, fun x hx => nomatch hx⟩
    cases s.commissions.lookup addr <;> simp [startOf, history]
  | cons msg msgs ih =>
    obtain ⟨ctx, msg⟩ := msg
    obtain ⟨hs', hm⟩ := moves_step hh hs ctx msg
    obtain ⟨hrun, hchain, htime⟩ := ih hs'
    refine ⟨hrun, (hm addr).chain hchain, fun x hx => ?_⟩
    rcases List.mem_append.1 hx with hx | hx
    · exact (hm addr).updateTime x hx
    · exact htime x hx

/-- `A`'s commission: a rate of 10%, at most 20%, changing by at most 1% at a time. -/
def commissionA : Commission :=
  newCommissionWithTime ⟨10 ^ 17, Dec.natAbs_lt_of_lt_maxBitLen (by decide)⟩
    ⟨2 * 10 ^ 17, Dec.natAbs_lt_of_lt_maxBitLen (by decide)⟩ ⟨10 ^ 16, Dec.natAbs_lt_of_lt_maxBitLen (by decide)⟩ 0

/-- `redelegationGenesis` with `A`'s commission. -/
def commissionGenesis : State Unit :=
  ⟨redelegationGenesis, (∅ : AList fun _ : ValAddress => Commission).insert operatorA commissionA⟩

theorem commissionGenesis_limits : Limits commissionGenesis where
  synced addr := by
    simp only [commissionGenesis, redelegationGenesis, AList.mem_insert, AList.notMem_empty, or_false]
  within addr c h := by
    by_cases ha : addr = operatorA
    · subst ha
      simp only [commissionGenesis, AList.lookup_insert, Option.some_inj] at h
      subst h
      exact ⟨by decide, by decide, by decide, by decide, by decide⟩
    · dsimp only [commissionGenesis] at h
      rw [AList.lookup_insert_ne ha] at h
      simp at h

/-- A day after genesis, `A` raises its rate to 11%. -/
def commissionRaise : List (Context × Msg) :=
  [(⟨11, 24 * 3600 * 10 ^ 9⟩, .editValidator operatorA (some ⟨11 * 10 ^ 16, Dec.natAbs_lt_of_lt_maxBitLen (by decide)⟩) none)]

theorem commission_limits_genesis :
    (Hooks.none Unit).KeepStore ∧ Limits commissionGenesis ∧
      Limits (run (Hooks.none Unit) id poolPerms commissionGenesis commissionRaise) ∧
      (startOf (commissionGenesis.commissions.lookup operatorA) ++
          history (Hooks.none Unit) id poolPerms operatorA commissionGenesis commissionRaise).IsChain
        (fun a b => a.2.Follows b.2) ∧
      ∀ x ∈ history (Hooks.none Unit) id poolPerms operatorA commissionGenesis commissionRaise,
        x.2.updateTime = x.1 :=
  ⟨Hooks.none_keepStore, commissionGenesis_limits,
    commission_limits Hooks.none_keepStore commissionGenesis_limits commissionRaise operatorA⟩

end WithCommission

end Barkis.Staking
