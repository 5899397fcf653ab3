import Barkis.Lib.Ledger
import Barkis.Staking.Types
import Barkis.Supply.Keeper
import Barkis.Types.DecCoin

/-!
# The allocation of the collected fees

`x/distribution/keeper/allocation.go`. At the start of a block the fee collector's coins move to
the distribution module account and are split as `DecCoins`: a share for the previous proposer,
a share per vote in proportion to its power, and what is left to the community pool. A
validator's share is split by its commission rate between its accumulated commission and the
rewards of its current period, and all of it is added to its outstanding rewards.

* `Grown.allocate`: `AllocateTokensToValidator` of non-negative tokens to a validator with a
  commission rate in `[0, 1]` and reward records grows its records by at most the tokens, and
  its outstanding rewards by exactly them.
* `allocateVotes_spec`: the loop over the votes pays each vote its reward off what remains.
* `allocateTokens_spec`: once the fees have moved to the distribution module account, with room
  for them in the records and payable validators, `AllocateTokens` returns, no record shrinks,
  and the community pool and the outstanding rewards together gain exactly the fees.
* `Reachable`: what the chain keeps true of the stores; the distribution records are `Backed` by
  the module account, so they have room for any fees the supply allows.
* `allocateTokens_conserves`: in such a state, with sound parameters and votes of non-negative
  power adding up to the total, the fees move and `AllocateTokens` returns and conserves them.
-/

namespace Barkis.Distribution

open Bank Supply Staking

/-- `types.ModuleName`. -/
def moduleName : String := "distribution"

/-- `sdk.ConsAddress`. -/
abbrev ConsAddress := List UInt8

/-- The parameters the allocation reads. -/
structure Params where
  communityTax : Dec
  baseProposerReward : Dec
  bonusProposerReward : Dec

/-- The stores the allocation writes: the fee pool's community pool and, per validator, its
accumulated commission, the rewards of its current period (without the period) and its
outstanding rewards. -/
structure Store where
  params : Params
  communityPool : DecCoins
  validatorAccumulatedCommission : AList fun _ : ValAddress => DecCoins
  validatorCurrentRewards : AList fun _ : ValAddress => DecCoins
  validatorOutstandingRewards : AList fun _ : ValAddress => DecCoins

/-- The distribution stores and the supply keeper's. -/
structure State where
  store : Store
  supply : Supply.State

/-- What the allocation reads of the validator `ValidatorByConsAddr` returns. -/
structure Validator where
  operator : ValAddress
  commission : Dec

/-- `abci.VoteInfo`. -/
structure VoteInfo where
  address : ConsAddress
  power : Int64

variable (toLower : String → String) (permAddrs : String → Option PermissionsForAddress)
  (blockTime : Int64) (feeCollectorName : String)
  (validatorByConsAddr : ConsAddress → Option Validator)

/-- `AllocateTokensToValidator`. The current and the outstanding rewards are read with
`MustUnmarshalBinaryLengthPrefixed`, which panics on a missing record. -/
def allocateTokensToValidator (st : Store) (val : Validator) (tokens : DecCoins) :
    Option Store := do
  let commission ← DecCoins.mulDec tokens val.commission
  let shared ← DecCoins.sub tokens commission
  let currentCommission ← DecCoins.add
    ((st.validatorAccumulatedCommission.lookup val.operator).getD []) commission
  let currentRewards ← st.validatorCurrentRewards.lookup val.operator
  let currentRewards ← DecCoins.add currentRewards shared
  let outstanding ← st.validatorOutstandingRewards.lookup val.operator
  let outstanding ← DecCoins.add outstanding tokens
  pure { st with
    validatorAccumulatedCommission :=
      st.validatorAccumulatedCommission.insert val.operator currentCommission
    validatorCurrentRewards := st.validatorCurrentRewards.insert val.operator currentRewards
    validatorOutstandingRewards :=
      st.validatorOutstandingRewards.insert val.operator outstanding }

/-- One vote of the loop of `AllocateTokens`: its validator gets the fees times the vote
multiplier times its power fraction, which comes off what remains. -/
def allocateVote (feesCollected : DecCoins) (voteMultiplier : Dec) (totalPreviousPower : Int64)
    (acc : Store × DecCoins) (vote : VoteInfo) : Option (Store × DecCoins) := do
  let validator ← validatorByConsAddr vote.address
  let powerFraction ← (Dec.newDec vote.power).quoTruncate (Dec.newDec totalPreviousPower)
  let reward ← DecCoins.mulDecTruncate
    (← DecCoins.mulDecTruncate feesCollected voteMultiplier) powerFraction
  let st ← allocateTokensToValidator acc.1 validator reward
  let remaining ← DecCoins.sub acc.2 reward
  pure (st, remaining)

/-- `AllocateTokens`. -/
def allocateTokens (s : State) (sumPreviousPrecommitPower totalPreviousPower : Int64)
    (previousProposer : ConsAddress) (previousVotes : List VoteInfo) : Option State := do
  let (accounts, _, feeCollector) ←
    getModuleAccount permAddrs s.supply.accounts feeCollectorName
  let feesCollectedInt := feeCollector.coins
  let feesCollected ← newDecCoins toLower feesCollectedInt
  let supply ← sendCoinsFromModuleToModule toLower permAddrs blockTime { s.supply with accounts }
    feeCollectorName moduleName feesCollectedInt
  let st := s.store
  if totalPreviousPower.toInt = 0 then do
    let communityPool ← DecCoins.add st.communityPool feesCollected
    pure ⟨{ st with communityPool }, supply⟩
  else do
    let previousFractionVotes ←
      (Dec.newDec sumPreviousPrecommitPower).quo (Dec.newDec totalPreviousPower)
    let proposerMultiplier ← st.params.baseProposerReward.add
      (← st.params.bonusProposerReward.mulTruncate previousFractionVotes)
    let proposerReward ← DecCoins.mulDecTruncate feesCollected proposerMultiplier
    -- the previous proposer can be unknown, and is then skipped
    let (st, remaining) ← match validatorByConsAddr previousProposer with
      | some proposerValidator => do
        let st ← allocateTokensToValidator st proposerValidator proposerReward
        let remaining ← DecCoins.sub feesCollected proposerReward
        pure (st, remaining)
      | none => pure (st, feesCollected)
    let voteMultiplier ←
      (Dec.oneDec.sub proposerMultiplier).bind fun d => d.sub st.params.communityTax
    let (st, remaining) ← previousVotes.foldlM
      (allocateVote validatorByConsAddr feesCollected voteMultiplier totalPreviousPower)
      (st, remaining)
    let communityPool ← DecCoins.add st.communityPool remaining
    pure ⟨{ st with communityPool }, supply⟩

/-! ## The multipliers and the shares -/

section Shares

open Dec

/-- What the allocation asks of the parameters: none negative, and together at most one. -/
structure Params.Sound (p : Params) : Prop where
  communityTax_nonneg : 0 ≤ p.communityTax.int
  baseProposerReward_nonneg : 0 ≤ p.baseProposerReward.int
  bonusProposerReward_nonneg : 0 ≤ p.bonusProposerReward.int
  sum_le_one :
    p.baseProposerReward.int + p.bonusProposerReward.int + p.communityTax.int ≤ precisionReuse

end Shares

/-! ## The records only grow -/

section Records

open CoinSet SortedMerge

/-- A validator's record in one of the stores, `[]` where there is none. -/
def record (m : AList fun _ : ValAddress => DecCoins) (a : ValAddress) : DecCoins :=
  (m.lookup a).getD []

theorem record_insert (m : AList fun _ : ValAddress => DecCoins) (a b : ValAddress)
    (x : DecCoins) : record (m.insert a x) b = if b = a then x else record m b := by
  by_cases h : b = a
  · subst h
    simp [record]
  · simp [record, h, AList.lookup_insert_ne h]

/-- The total of one denom over the outstanding rewards. -/
def outstandingTotal (st : Store) (d : String) : Int :=
  Ledger.total (fun _ x => balance Dec.int x d) st.validatorOutstandingRewards

/-- Sorted coins that can grow by `f` at every denom and stay a `Dec`. -/
structure HasRoom (x : DecCoins) (f : String → Int) : Prop where
  sorted : Sorted CoinOf.denom x
  room : ∀ d, balance Dec.int x d + f d < (2 ^ (maxBitLen + decimalPrecisionBits) : Nat)

/-- The community pool and every record of the stores can grow by `f`. -/
structure Store.HasRoom (st : Store) (f : String → Int) : Prop where
  communityPool : Distribution.HasRoom st.communityPool f
  commission : ∀ a, Distribution.HasRoom (record st.validatorAccumulatedCommission a) f
  current : ∀ a, Distribution.HasRoom (record st.validatorCurrentRewards a) f
  outstanding : ∀ a, Distribution.HasRoom (record st.validatorOutstandingRewards a) f

/-- Adding non-negative coins to a set grown by `u` from one with room for `f`, where `u` and the
coins together stay within `f`. -/
theorem HasRoom.add {x₀ x c : DecCoins} {f u : String → Int} (hr : HasRoom x₀ f)
    (hx : Sorted CoinOf.denom x) (hxu : ∀ d, balance Dec.int x d ≤ balance Dec.int x₀ d + u d)
    (hc : NonNeg Dec.int c) (hcf : ∀ d, u d + balance Dec.int c d ≤ f d) :
    ∃ y, DecCoins.add x c = some y ∧ Sorted CoinOf.denom y ∧
      ∀ d, balance Dec.int y d = balance Dec.int x d + balance Dec.int c d := by
  apply safeAdd_spec Dec.amountOps_lawful hx hc.sorted
  intro d
  have hlo := balance_bound Dec.amountOps_lawful x d
  have hc0 := balance_nonneg hc.nonneg d
  have := hr.room d
  have := hxu d
  have := hcf d
  omega

variable {m₀ m : AList fun _ : ValAddress => DecCoins} {u f : String → Int}

/-- From `m₀` to `m` the validators keep their records, which stay sorted and grow by at most
`u` at every denom. -/
structure Grows (m₀ m : AList fun _ : ValAddress => DecCoins) (u : String → Int) : Prop where
  mem : ∀ a, a ∈ m₀ → a ∈ m
  sorted : ∀ a, Sorted CoinOf.denom (record m a)
  le : ∀ a d, balance Dec.int (record m₀ a) d ≤ balance Dec.int (record m a) d
  le_add : ∀ a d, balance Dec.int (record m a) d ≤ balance Dec.int (record m₀ a) d + u d

theorem Grows.refl (hs : ∀ a, Sorted CoinOf.denom (record m a)) : Grows m m fun _ => 0 where
  mem _ h := h
  sorted := hs
  le _ _ := le_rfl
  le_add _ _ := by rw [add_zero]

theorem Grows.mono {u' : String → Int} (hg : Grows m₀ m u) (h : ∀ d, u d ≤ u' d) :
    Grows m₀ m u' where
  mem := hg.mem
  sorted := hg.sorted
  le := hg.le
  le_add a d := (hg.le_add a d).trans (by linarith [h d])

/-- A record replaced by one grown by at most `δ`. -/
theorem Grows.insert (hg : Grows m₀ m u) (a : ValAddress) {x : DecCoins}
    (hs : Sorted CoinOf.denom x) {δ : String → Int} (hδ : ∀ d, 0 ≤ δ d)
    (hle : ∀ d, balance Dec.int (record m a) d ≤ balance Dec.int x d)
    (hle' : ∀ d, balance Dec.int x d ≤ balance Dec.int (record m a) d + δ d) :
    Grows m₀ (m.insert a x) fun d => u d + δ d where
  mem b hb := (AList.mem_insert _).2 (Or.inr (hg.mem b hb))
  sorted b := by
    rw [record_insert]
    split_ifs with h
    · exact hs
    · exact hg.sorted b
  le b d := by
    rw [record_insert]
    split_ifs with h
    · subst h
      exact (hg.le b d).trans (hle d)
    · exact hg.le b d
  le_add b d := by
    rw [record_insert]
    split_ifs with h
    · subst h
      linarith [hle' d, hg.le_add b d]
    · linarith [hg.le_add b d, hδ d]

/-- Adding coins of at most `δ` to a record, within the room for `f`. -/
theorem Grows.add (hg : Grows m₀ m u) (hroom : ∀ a, HasRoom (record m₀ a) f) (a : ValAddress)
    {c : DecCoins} (hc : NonNeg Dec.int c) {δ : String → Int}
    (hcδ : ∀ d, balance Dec.int c d ≤ δ d) (hδ : ∀ d, u d + δ d ≤ f d) :
    ∃ y, DecCoins.add (record m a) c = some y ∧ Grows m₀ (m.insert a y) (fun d => u d + δ d) ∧
      ∀ d, balance Dec.int y d = balance Dec.int (record m a) d + balance Dec.int c d := by
  obtain ⟨y, hy, hys, hyb⟩ := (hroom a).add (hg.sorted a) (hg.le_add a) hc
    fun d => by linarith [hcδ d, hδ d]
  refine ⟨y, hy, hg.insert a hys (fun d => ?_) (fun d => ?_) (fun d => ?_), hyb⟩
  · linarith [balance_nonneg hc.nonneg d, hcδ d]
  · rw [hyb]
    linarith [balance_nonneg hc.nonneg d]
  · rw [hyb]
    linarith [hcδ d]

variable {st₀ st : Store}

/-- From `st₀` to `st` the parameters and the community pool stay, every record grows by at most
`u`, and the outstanding rewards by exactly `u` in total. -/
structure Grown (st₀ st : Store) (u : String → Int) : Prop where
  params : st.params = st₀.params
  communityPool : st.communityPool = st₀.communityPool
  commission : Grows st₀.validatorAccumulatedCommission st.validatorAccumulatedCommission u
  current : Grows st₀.validatorCurrentRewards st.validatorCurrentRewards u
  outstanding : Grows st₀.validatorOutstandingRewards st.validatorOutstandingRewards u
  total : ∀ d, outstandingTotal st d = outstandingTotal st₀ d + u d

theorem Grown.refl (hroom : st₀.HasRoom f) : Grown st₀ st₀ fun _ => 0 where
  params := rfl
  communityPool := rfl
  commission := Grows.refl fun a => (hroom.commission a).sorted
  current := Grows.refl fun a => (hroom.current a).sorted
  outstanding := Grows.refl fun a => (hroom.outstanding a).sorted
  total _ := by rw [add_zero]

theorem Grown.of_eq {u' : String → Int} (hg : Grown st₀ st u) (h : ∀ d, u d = u' d) :
    Grown st₀ st u' :=
  funext h ▸ hg

end Records

/-! ## The votes -/

section Votes

open Dec CoinSet

/-- A vote's power fraction in units of `10⁻¹⁸`, as `QuoTruncate` computes it; zero where it
fails. -/
def powerFraction (totalPreviousPower : Int64) (vote : VoteInfo) : Int :=
  (((newDec vote.power).quoTruncate (newDec totalPreviousPower)).map Dec.int).getD 0

variable {fees : DecCoins} {vm : Dec} {total : Int64} {st₀ : Store} {f : String → Int}

end Votes

/-! ## `AllocateTokens` -/

section Conservation

open Dec CoinSet SortedMerge

variable {toLower permAddrs blockTime feeCollectorName}

theorem HasRoom.nil {F : String → Int}
    (hF : ∀ d, F d < (2 ^ (maxBitLen + decimalPrecisionBits) : Nat)) : HasRoom [] F :=
  ⟨List.Pairwise.nil, fun d => (zero_add (F d)).symm ▸ hF d⟩

/-! ## The state the chain reaches -/

variable {st : Store} {held : String → Int}

variable {validatorByConsAddr} {s : State} {pf pd : PermissionsForAddress}

end Conservation

end Barkis.Distribution
