import Barkis.Staking.Handler
import Barkis.Lib.EraseLoop

/-!
# Completing mature entries

`CompleteUnbonding` and `CompleteRedelegation` walk the entries of a record with an index and
delete each mature entry from the slice they walk (`EraseLoop.loop`); a deleted unbonding entry
pays its balance, when not zero, from the not-bonded pool to the delegator. The model of the
keeper (`completeUnbondingEntries`, the `filter` of `completeRedelegation`) recurses on the list
instead: `completeUnbondingLoop_eq` and `completeRedelegationLoop_eq` say the two agree.

* `completeUnbonding_eq`: `CompleteUnbonding` keeps the entries that are not mature, in order,
  deletes the record when none is left, and makes one payment per mature entry, in order.
* `balance_payments`: those payments move the sum of the balances from the pool to the delegator.
-/

namespace Barkis.Staking

open Bank Supply

variable {σ : Type} (toLower : String → String) (permAddrs : String → Option PermissionsForAddress)
  (ctx : Context)

/-- The payment that follows the deletion of a mature unbonding entry: a balance that is not zero
leaves the not-bonded pool for the delegator. -/
def payUnbondingEntry (delAddr : AccAddress) (s : State σ) (entry : UnbondingDelegationEntry) :
    Option (State σ) :=
  if entry.balance.isZero then some s
  else do
    let amt ← bondCoins toLower s entry.balance
    let supply ← undelegateCoinsFromModuleToAccount toLower permAddrs s.supply notBondedPoolName
      delAddr amt
    pure { s with supply }

/-- The loop of `CompleteUnbonding` as the source writes it: `RemoveEntry(i)`, `i--`, then the
payment. -/
def completeUnbondingLoop (delAddr : AccAddress) (s : State σ)
    (entries : List UnbondingDelegationEntry) : Option (State σ × List UnbondingDelegationEntry) :=
  EraseLoop.loop (fun entry => entry.isMature ctx.time) (payUnbondingEntry toLower permAddrs delAddr)
    s entries 0

/-- The loop of `CompleteRedelegation` as the source writes it: `RemoveEntry(i)`, `i--`. -/
def completeRedelegationLoop (entries : List RedelegationEntry) : List RedelegationEntry :=
  (@EraseLoop.loop Id _ _ _ (fun entry => entry.isMature ctx.time) (fun s _ => pure s) () entries
    0).2

section Loops

variable {toLower permAddrs ctx}

/-- A mature entry is paid, then dropped. -/
theorem completeUnbondingEntries_cons_mature {delAddr : AccAddress} {s : State σ}
    {entry : UnbondingDelegationEntry} (entries : List UnbondingDelegationEntry)
    (hm : entry.isMature ctx.time = true) :
    completeUnbondingEntries toLower permAddrs ctx delAddr s (entry :: entries) =
      (payUnbondingEntry toLower permAddrs delAddr s entry).bind fun s =>
        completeUnbondingEntries toLower permAddrs ctx delAddr s entries := by
  rw [completeUnbondingEntries, if_pos hm, payUnbondingEntry]
  by_cases hz : entry.balance.isZero = true
  · simp [hz]
  · simp only [hz, if_false, Bool.false_eq_true]
    cases bondCoins toLower s entry.balance <;> simp [Option.bind_assoc]

/-- An entry that is not mature is kept in its place. -/
theorem completeUnbondingEntries_cons_immature {delAddr : AccAddress} {s : State σ}
    {entry : UnbondingDelegationEntry} (entries : List UnbondingDelegationEntry)
    (hm : entry.isMature ctx.time = false) :
    completeUnbondingEntries toLower permAddrs ctx delAddr s (entry :: entries) =
      (completeUnbondingEntries toLower permAddrs ctx delAddr s entries).map fun r =>
        (r.1, entry :: r.2) := by
  rw [completeUnbondingEntries, if_neg (by simp [hm])]
  cases completeUnbondingEntries toLower permAddrs ctx delAddr s entries <;> rfl

/-- The model's recursion pays the mature entries in order and keeps the others. -/
theorem completeUnbondingEntries_eq (delAddr : AccAddress) :
    ∀ (s : State σ) (entries : List UnbondingDelegationEntry),
      completeUnbondingEntries toLower permAddrs ctx delAddr s entries =
        (fun s => (s, entries.filter fun entry => !entry.isMature ctx.time)) <$>
          (entries.filter fun entry => entry.isMature ctx.time).foldlM
            (payUnbondingEntry toLower permAddrs delAddr) s
  | s, [] => rfl
  | s, entry :: entries => by
    cases hm : entry.isMature ctx.time with
    | true =>
      rw [completeUnbondingEntries_cons_mature entries hm]
      simp only [List.filter_cons, hm, if_true, Bool.not_true, Bool.false_eq_true, if_false,
        List.foldlM_cons]
      cases payUnbondingEntry toLower permAddrs delAddr s entry with
      | none => rfl
      | some s₁ => exact completeUnbondingEntries_eq delAddr s₁ entries
    | false =>
      rw [completeUnbondingEntries_cons_immature entries hm, completeUnbondingEntries_eq delAddr s]
      simp only [List.filter_cons, hm, Bool.not_false, if_true, Bool.false_eq_true, if_false]
      cases (entries.filter fun entry => entry.isMature ctx.time).foldlM
        (payUnbondingEntry toLower permAddrs delAddr) s <;> rfl

/-- The source's index loop is the model's recursion. -/
theorem completeUnbondingLoop_eq (delAddr : AccAddress) (s : State σ)
    (entries : List UnbondingDelegationEntry) :
    completeUnbondingLoop toLower permAddrs ctx delAddr s entries =
      completeUnbondingEntries toLower permAddrs ctx delAddr s entries := by
  rw [completeUnbondingLoop, EraseLoop.loop_eq, completeUnbondingEntries_eq]

/-- The source's index loop keeps the entries that are not mature, in order. -/
theorem completeRedelegationLoop_eq (entries : List RedelegationEntry) :
    completeRedelegationLoop ctx entries = entries.filter fun entry => !entry.isMature ctx.time := by
  rw [completeRedelegationLoop, EraseLoop.loop_eq]
  rfl

end Loops

section Payments

variable {toLower permAddrs ctx}

/-- The bond-denom coins of an amount hold the amount at the bond denom and nothing elsewhere. -/
theorem balance_bondCoins {s : State σ} {amount : SdkInt} {amt : Coins}
    (h : bondCoins toLower s amount = some amt) (d : String) :
    Coins.balance amt d = if s.store.params.bondDenom = d then amount.i else 0 := by
  obtain ⟨coin, hcoin, -⟩ := Option.bind_eq_some_iff.1 h
  have hok := hcoin
  rw [newCoin] at hok
  split_ifs at hok with hv
  simp only [Bool.and_eq_true, Bool.not_eq_true', SdkInt.isNegative, decide_eq_false_iff_not,
    not_lt] at hv
  obtain ⟨coins, hcoins, -, -, hbal⟩ := @newCoins_newCoin toLower _ _ hv.1 hv.2
  rw [bondCoins, hcoins, Option.some_inj] at h
  rw [← h, hbal]

/-- What the payments of `entries` move at the denom `d`: the sum of the balances that are not
zero, at the bond denom. -/
def paidAt (bondDenom : String) (entries : List UnbondingDelegationEntry) (d : String) : Int :=
  if bondDenom = d then ((entries.filter fun entry => !entry.balance.isZero).map (·.balance.i)).sum
  else 0

theorem paidAt_cons (bondDenom : String) (entry : UnbondingDelegationEntry)
    (entries : List UnbondingDelegationEntry) (d : String) :
    paidAt bondDenom (entry :: entries) d = paidAt bondDenom [entry] d + paidAt bondDenom entries d := by
  unfold paidAt
  split_ifs
  · cases hz : entry.balance.isZero <;> simp [hz]
  · simp

variable {poolAddr delAddr : AccAddress}

/-- One payment moves the entry's balance from the pool to the delegator and keeps the stakes. -/
theorem payUnbondingEntry_spec {s s' : State σ} {entry : UnbondingDelegationEntry}
    (hs : s.supply.WellFormed) (hpool : getModuleAddress permAddrs notBondedPoolName = some poolAddr)
    (h : payUnbondingEntry toLower permAddrs delAddr s entry = some s') :
    s'.store = s.store ∧ s'.supply.WellFormed ∧ ∀ a d,
      Coins.balance (getCoins s'.supply.accounts a) d = Coins.balance (getCoins s.supply.accounts a) d -
        (if a = poolAddr ∧ a ≠ delAddr then paidAt s.store.params.bondDenom [entry] d else 0) +
          if a = delAddr then paidAt s.store.params.bondDenom [entry] d else 0 := by
  unfold payUnbondingEntry at h
  split at h
  · rename_i hz
    cases h
    refine ⟨rfl, hs, fun a d => ?_⟩
    simp [paidAt, hz]
  · rename_i hz
    obtain ⟨amt, hamt, h⟩ := Option.bind_eq_some_iff.1 h
    obtain ⟨supply, hsupply, h⟩ := Option.bind_eq_some_iff.1 h
    cases h
    have hpaid : ∀ d, paidAt s.store.params.bondDenom [entry] d = Coins.balance amt d := by
      intro d
      rw [balance_bondCoins hamt d]
      simp [paidAt, hz]
    refine ⟨rfl, (undelegateCoinsFromModuleToAccount_moves hs hsupply).wellFormed, fun a d => ?_⟩
    rw [hpaid, balance_undelegateCoinsFromModuleToAccount hs hpool hsupply a d]

/-- The payments of a list of entries, in order, move the sum of their balances. -/
theorem balance_payments (hpool : getModuleAddress permAddrs notBondedPoolName = some poolAddr) :
    ∀ {entries : List UnbondingDelegationEntry} {s s' : State σ}, s.supply.WellFormed →
      entries.foldlM (payUnbondingEntry toLower permAddrs delAddr) s = some s' →
      s'.store = s.store ∧ s'.supply.WellFormed ∧ ∀ a d,
        Coins.balance (getCoins s'.supply.accounts a) d =
          Coins.balance (getCoins s.supply.accounts a) d -
            (if a = poolAddr ∧ a ≠ delAddr then paidAt s.store.params.bondDenom entries d else 0) +
              if a = delAddr then paidAt s.store.params.bondDenom entries d else 0
  | [], s, s', hs, h => by
    cases h
    exact ⟨rfl, hs, fun a d => by simp [paidAt]⟩
  | entry :: entries, s, s', hs, h => by
    rw [List.foldlM_cons] at h
    obtain ⟨s₁, h₁, h⟩ := Option.bind_eq_some_iff.1 h
    obtain ⟨hst₁, hs₁, hb₁⟩ := payUnbondingEntry_spec hs hpool h₁
    obtain ⟨hst, hs', hb⟩ := balance_payments hpool hs₁ h
    refine ⟨hst.trans hst₁, hs', fun a d => ?_⟩
    rw [hb, hb₁, hst₁, paidAt_cons _ entry entries]
    split_ifs <;> ring

end Payments

section Complete

variable {toLower permAddrs ctx}

/-- `CompleteUnbonding` on a record with `entries`: the payments of the mature entries, in order,
then the record rewritten with the entries that are not mature, or deleted when none is left. -/
theorem completeUnbonding_eq {s : State σ} {delAddr : AccAddress} {valAddr : ValAddress}
    {entries : List UnbondingDelegationEntry}
    (hget : getUnbondingDelegation s delAddr valAddr = some entries) :
    completeUnbonding toLower permAddrs ctx s delAddr valAddr =
      ((entries.filter fun entry => entry.isMature ctx.time).foldlM
        (payUnbondingEntry toLower permAddrs delAddr) s).map fun s₁ =>
          let remaining := entries.filter fun entry => !entry.isMature ctx.time
          if remaining.isEmpty then removeUnbondingDelegation s₁ delAddr valAddr
          else setUnbondingDelegation s₁ delAddr valAddr remaining := by
  rw [completeUnbonding, hget, Option.bind_eq_bind, Option.bind_some, completeUnbondingEntries_eq]
  cases (entries.filter fun entry => entry.isMature ctx.time).foldlM
    (payUnbondingEntry toLower permAddrs delAddr) s with
  | none => rfl
  | some s₁ =>
    dsimp only [Functor.map, Option.map_some, Option.bind_eq_bind, Option.bind_some]
    split_ifs <;> rfl

theorem getUnbondingDelegation_remove (s : State σ) (delAddr : AccAddress) (valAddr : ValAddress) :
    getUnbondingDelegation (removeUnbondingDelegation s delAddr valAddr) delAddr valAddr = none := by
  simp [getUnbondingDelegation, removeUnbondingDelegation]

theorem getUnbondingDelegation_set (s : State σ) (delAddr : AccAddress) (valAddr : ValAddress)
    (entries : List UnbondingDelegationEntry) :
    getUnbondingDelegation (setUnbondingDelegation s delAddr valAddr entries) delAddr valAddr =
      some entries := by
  simp [getUnbondingDelegation, setUnbondingDelegation]

/-- `CompleteRedelegation` on a record with `entries` keeps the entries that are not mature, in
order, or deletes the record when none is left. -/
theorem getRedelegation_completeRedelegation {s : State σ} {delAddr : AccAddress}
    {valSrcAddr valDstAddr : ValAddress} {entries : List RedelegationEntry}
    (hget : getRedelegation s delAddr valSrcAddr valDstAddr = some entries) :
    ∃ s', completeRedelegation ctx s delAddr valSrcAddr valDstAddr = some s' ∧
      getRedelegation s' delAddr valSrcAddr valDstAddr =
        if (entries.filter fun entry => !entry.isMature ctx.time).isEmpty then none
        else some (entries.filter fun entry => !entry.isMature ctx.time) := by
  rw [completeRedelegation, hget, Option.bind_eq_bind, Option.bind_some]
  dsimp only
  split_ifs
  · exact ⟨_, rfl, by simp [getRedelegation, removeRedelegation]⟩
  · exact ⟨_, rfl, by simp [getRedelegation, setRedelegation]⟩

/-- `CompleteUnbonding` and `CompleteRedelegation` keep exactly the entries that are not mature. -/
theorem maturing_removes_mature_entries {s : State σ} {delAddr poolAddr : AccAddress}
    {valAddr : ValAddress} {entries : List UnbondingDelegationEntry}
    (hget : getUnbondingDelegation s delAddr valAddr = some entries) (hs : s.supply.WellFormed)
    (hpool : getModuleAddress permAddrs notBondedPoolName = some poolAddr) :
    completeUnbondingLoop toLower permAddrs ctx delAddr s entries =
        completeUnbondingEntries toLower permAddrs ctx delAddr s entries ∧
      (completeUnbonding toLower permAddrs ctx s delAddr valAddr).isSome =
        ((entries.filter fun entry => entry.isMature ctx.time).foldlM
          (payUnbondingEntry toLower permAddrs delAddr) s).isSome ∧
      (∀ s', completeUnbonding toLower permAddrs ctx s delAddr valAddr = some s' →
        getUnbondingDelegation s' delAddr valAddr =
          (if (entries.filter fun entry => !entry.isMature ctx.time).isEmpty then none
          else some (entries.filter fun entry => !entry.isMature ctx.time)) ∧
        ∀ a d, Coins.balance (getCoins s'.supply.accounts a) d =
          Coins.balance (getCoins s.supply.accounts a) d -
            (if a = poolAddr ∧ a ≠ delAddr then
              paidAt s.store.params.bondDenom (entries.filter fun entry => entry.isMature ctx.time) d
            else 0) +
            if a = delAddr then
              paidAt s.store.params.bondDenom (entries.filter fun entry => entry.isMature ctx.time) d
            else 0) ∧
      ∀ {valSrcAddr valDstAddr : ValAddress} {redEntries : List RedelegationEntry},
        getRedelegation s delAddr valSrcAddr valDstAddr = some redEntries →
        completeRedelegationLoop ctx redEntries =
            redEntries.filter (fun entry => !entry.isMature ctx.time) ∧
          ∃ s', completeRedelegation ctx s delAddr valSrcAddr valDstAddr = some s' ∧
            getRedelegation s' delAddr valSrcAddr valDstAddr =
              if (redEntries.filter fun entry => !entry.isMature ctx.time).isEmpty then none
              else some (redEntries.filter fun entry => !entry.isMature ctx.time) := by
  refine ⟨completeUnbondingLoop_eq delAddr s entries, ?_, fun s' h => ?_,
    fun {_ _ redEntries} hred =>
      ⟨completeRedelegationLoop_eq redEntries, getRedelegation_completeRedelegation hred⟩⟩
  · rw [completeUnbonding_eq hget]
    cases (entries.filter fun entry => entry.isMature ctx.time).foldlM
      (payUnbondingEntry toLower permAddrs delAddr) s <;> rfl
  · rw [completeUnbonding_eq hget] at h
    obtain ⟨s₁, hpay, rfl⟩ := Option.map_eq_some_iff.1 h
    obtain ⟨-, -, hbal⟩ := balance_payments hpool hs hpay
    -- the record is written last, on the staking store only
    dsimp only
    split_ifs
    · exact ⟨getUnbondingDelegation_remove s₁ delAddr valAddr, hbal⟩
    · exact ⟨getUnbondingDelegation_set s₁ delAddr valAddr _, hbal⟩

end Complete

/-- `D` unbonding from `A`: an entry of 5 tokens that matures at 50 and one of 7 that matures at
200, with their 12 tokens in the not-bonded pool. -/
def twoUnbondingEntries : State Unit where
  store :=
    { redelegationGenesis.store with
      unbondingDelegations :=
        (∅ : AList fun _ : AccAddress × ValAddress => List UnbondingDelegationEntry).insert
          (delegatorD, operatorA) [⟨10, 50, stakeInt 5, stakeInt 5⟩, ⟨10, 200, stakeInt 7, stakeInt 7⟩] }
  supply := ⟨(∅ : Accounts).insert [1] ⟨[⟨"stake", stakeInt 12⟩], .module [burner, staking]⟩,
    [⟨"stake", stakeInt 12⟩]⟩
  ext := ()

theorem twoUnbondingEntries_wellFormed : twoUnbondingEntries.supply.WellFormed := by
  refine ⟨fun addr acc h => ?_, List.pairwise_singleton _ _⟩
  by_cases ha : addr = [1]
  · subst ha
    simp only [twoUnbondingEntries, AList.lookup_insert, Option.some_inj] at h
    subst h
    exact List.pairwise_singleton _ _
  · dsimp only [twoUnbondingEntries] at h
    rw [AList.lookup_insert_ne ha] at h
    simp at h

theorem maturing_removes_mature_entries_twoEntries :
    getUnbondingDelegation twoUnbondingEntries delegatorD operatorA =
        some [⟨10, 50, stakeInt 5, stakeInt 5⟩, ⟨10, 200, stakeInt 7, stakeInt 7⟩] ∧
      twoUnbondingEntries.supply.WellFormed ∧
      getModuleAddress poolPerms notBondedPoolName = some [1] ∧
      (completeUnbondingLoop id poolPerms ⟨10, 100⟩ delegatorD twoUnbondingEntries
          [⟨10, 50, stakeInt 5, stakeInt 5⟩, ⟨10, 200, stakeInt 7, stakeInt 7⟩] =
        completeUnbondingEntries id poolPerms ⟨10, 100⟩ delegatorD twoUnbondingEntries
          [⟨10, 50, stakeInt 5, stakeInt 5⟩, ⟨10, 200, stakeInt 7, stakeInt 7⟩] ∧
      (completeUnbonding id poolPerms ⟨10, 100⟩ twoUnbondingEntries delegatorD operatorA).isSome =
        (([⟨10, 50, stakeInt 5, stakeInt 5⟩, ⟨10, 200, stakeInt 7, stakeInt 7⟩].filter
          fun (entry : UnbondingDelegationEntry) => entry.isMature 100).foldlM
          (payUnbondingEntry id poolPerms delegatorD) twoUnbondingEntries).isSome ∧
      (∀ s', completeUnbonding id poolPerms ⟨10, 100⟩ twoUnbondingEntries delegatorD operatorA =
          some s' →
        getUnbondingDelegation s' delegatorD operatorA =
          (if ([⟨10, 50, stakeInt 5, stakeInt 5⟩, ⟨10, 200, stakeInt 7, stakeInt 7⟩].filter
            fun (entry : UnbondingDelegationEntry) => !entry.isMature 100).isEmpty then none
          else some ([⟨10, 50, stakeInt 5, stakeInt 5⟩, ⟨10, 200, stakeInt 7, stakeInt 7⟩].filter
            fun (entry : UnbondingDelegationEntry) => !entry.isMature 100)) ∧
        ∀ a d, Coins.balance (getCoins s'.supply.accounts a) d =
          Coins.balance (getCoins twoUnbondingEntries.supply.accounts a) d -
            (if a = [1] ∧ a ≠ delegatorD then
              paidAt twoUnbondingEntries.store.params.bondDenom
                ([⟨10, 50, stakeInt 5, stakeInt 5⟩, ⟨10, 200, stakeInt 7, stakeInt 7⟩].filter
                  fun (entry : UnbondingDelegationEntry) => entry.isMature 100) d
            else 0) +
            if a = delegatorD then
              paidAt twoUnbondingEntries.store.params.bondDenom
                ([⟨10, 50, stakeInt 5, stakeInt 5⟩, ⟨10, 200, stakeInt 7, stakeInt 7⟩].filter
                  fun (entry : UnbondingDelegationEntry) => entry.isMature 100) d
            else 0) ∧
      ∀ {valSrcAddr valDstAddr : ValAddress} {redEntries : List RedelegationEntry},
        getRedelegation twoUnbondingEntries delegatorD valSrcAddr valDstAddr = some redEntries →
        completeRedelegationLoop ⟨10, 100⟩ redEntries =
            redEntries.filter (fun entry => !entry.isMature 100) ∧
          ∃ s', completeRedelegation ⟨10, 100⟩ twoUnbondingEntries delegatorD valSrcAddr
              valDstAddr = some s' ∧
            getRedelegation s' delegatorD valSrcAddr valDstAddr =
              if (redEntries.filter fun entry => !entry.isMature 100).isEmpty then none
              else some (redEntries.filter fun entry => !entry.isMature 100)) :=
  have hget : getUnbondingDelegation twoUnbondingEntries delegatorD operatorA =
      some [⟨10, 50, stakeInt 5, stakeInt 5⟩, ⟨10, 200, stakeInt 7, stakeInt 7⟩] := by
    dsimp only [getUnbondingDelegation, twoUnbondingEntries]
    rw [AList.lookup_insert]
  have hpool : getModuleAddress poolPerms notBondedPoolName = some [1] := by
    simp [getModuleAddress, poolPerms, bondedPoolName, notBondedPoolName]
  ⟨hget, twoUnbondingEntries_wellFormed, hpool,
    maturing_removes_mature_entries hget twoUnbondingEntries_wellFormed hpool⟩

end Barkis.Staking
