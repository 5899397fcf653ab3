import Barkis.Distribution.Rewards
import Barkis.Lib.RefCount

/-!
# The reference counts of the historical rewards

`ReferenceCountInvariant` (`x/distribution/keeper/invariants.go`) checks that the reference counts
of all historical records add up to one per validator, one per delegation and one per slash
event. Each of these refers to one record: a validator to that of the period it last ended
(`periodRefs`), a delegation to that of the period before it started (`startingRefs`), a slash
event to that of the period it ended (`slashRefs`).

`Counted st`: the records count these references exactly (`RefCount.Tracks`), every period a
delegation or a slash refers to is before its validator's current one, no period has two
references beside its validator's, and every slash event records the period of its key, which
is the record `calculateDelegationRewards` reads for it.

* Each keeper function the hooks call keeps `Counted`, under what the staking keeper guarantees
  when it calls it: a validator is created once (`Counted.initializeValidator`) and removed with
  no delegation left (`Counted.afterValidatorRemoved`), and a delegation starts after the period
  was ended for it (`Counted.initializeDelegation`, with `RewardsStore.Fresh`).
* `Counted.referenceCount`: the counts add up to the number of current periods, starting infos
  and slash events.
* `Counted.mem_of_period`, `Counted.mem_of_startingInfo`, `Counted.mem_of_slashEvent`: the record
  each reference points to is there.
* `Counted.referenceCount_le`: no count passes two, so `incrementReferenceCount` never panics.
-/

namespace Barkis.Distribution

open Bank Staking RefCount

namespace RewardsStore

/-- The record each validator refers to: that of the period it last ended. -/
def periodRefs (st : RewardsStore) : Multiset (ValAddress × Nat) :=
  image (fun val period => (val, period - 1)) st.validatorCurrentPeriod

/-- The record each delegation refers to: that of the period before it started. -/
def startingRefs (st : RewardsStore) : Multiset (ValAddress × Nat) :=
  image (fun key (info : DelegatorStartingInfo) => (key.1, info.previousPeriod))
    st.delegatorStartingInfos

/-- The record each slash event refers to: that of the period it ended. -/
def slashRefs (st : RewardsStore) : Multiset (ValAddress × Nat) :=
  image (fun (key : ValAddress × Nat × Nat) _ => (key.1, key.2.2)) st.validatorSlashEvents

/-- The references beside the validators' own. -/
def eventRefs (st : RewardsStore) : Multiset (ValAddress × Nat) := st.startingRefs + st.slashRefs

/-- Every reference to a historical record. -/
def references (st : RewardsStore) : Multiset (ValAddress × Nat) := st.periodRefs + st.eventRefs

/-- The period `val` last ended has no reference beside the validator's: a delegation can start
there without making a count of three. -/
def Fresh (st : RewardsStore) (val : ValAddress) : Prop :=
  ∀ period, st.validatorCurrentPeriod.lookup val = some period →
    st.eventRefs.count (val, period - 1) = 0

end RewardsStore

open RewardsStore

/-- The reference counts of the historical records, and the facts about periods that keep them. -/
structure Counted (st : RewardsStore) : Prop where
  tracks : Tracks ValidatorHistoricalRewards.referenceCount st.validatorHistoricalRewards
    st.references
  period_pos : ∀ val period, st.validatorCurrentPeriod.lookup val = some period → 0 < period
  ended : ∀ x ∈ st.eventRefs, ∃ period, st.validatorCurrentPeriod.lookup x.1 = some period ∧
    x.2 < period
  single : ∀ x, st.eventRefs.count x ≤ 1
  keyed : ∀ key event, st.validatorSlashEvents.lookup key = some event →
    event.validatorPeriod = key.2.2

variable {st st' : RewardsStore} {val : ValAddress}

/-! ## How the writes move the references -/

theorem periodRefs_insert (st : RewardsStore) (val : ValAddress) (period : Nat) :
    image (fun val period => (val, period - 1)) (st.validatorCurrentPeriod.insert val (period + 1)) =
      (val, period) ::ₘ image (fun val period => (val, period - 1))
        (st.validatorCurrentPeriod.erase val) := by
  rw [image_insert, Nat.add_sub_cancel]

/-- A validator without a period has no reference. -/
theorem Counted.notMem_references (h : Counted st) (hval : val ∉ st.validatorCurrentPeriod)
    (period : Nat) : (val, period) ∉ st.references := by
  rw [references, Multiset.mem_add, not_or]
  constructor
  · rw [periodRefs, mem_image]
    rintro ⟨a, b, hl, hab⟩
    obtain rfl : a = val := congrArg Prod.fst hab
    exact hval (AList.lookup_isSome.1 (by rw [hl]; rfl))
  · intro hx
    obtain ⟨p, hp, -⟩ := h.ended _ hx
    exact hval (AList.lookup_isSome.1 (by rw [hp]; rfl))

/-- A delegation or a slash refers to a period its validator has ended. -/
theorem Counted.notMem_eventRefs (h : Counted st) {period : Nat}
    (hp : st.validatorCurrentPeriod.lookup val = some period) : (val, period) ∉ st.eventRefs := by
  intro hx
  obtain ⟨p, hp', hlt⟩ := h.ended _ hx
  rw [hp] at hp'
  cases hp'
  exact lt_irrefl _ hlt

theorem Counted.of_sameRefs (h : Counted st) (hs : st'.SameRefs st) : Counted st' := by
  obtain ⟨h₁, h₂, h₃, h₄⟩ := hs
  have he : st'.eventRefs = st.eventRefs := by
    simp only [eventRefs, startingRefs, slashRefs, h₃, h₄]
  have hr : st'.references = st.references := by
    simp only [references, periodRefs, he, h₂]
  refine ⟨?_, ?_, ?_, ?_, ?_⟩
  · rw [hr, h₁]
    exact h.tracks
  · rw [h₂]
    exact h.period_pos
  · rw [he, h₂]
    exact h.ended
  · rw [he]
    exact h.single
  · rw [h₄]
    exact h.keyed

/-! ## The reference counts -/

theorem incrementReferenceCount_tracks {R : Multiset (ValAddress × Nat)} {period : Nat}
    (ht : Tracks ValidatorHistoricalRewards.referenceCount st.validatorHistoricalRewards R)
    (hi : incrementReferenceCount st val period = some st') :
    Tracks ValidatorHistoricalRewards.referenceCount st'.validatorHistoricalRewards
      ((val, period) ::ₘ R) := by
  obtain ⟨historical, hl, -, rfl⟩ := incrementReferenceCount_eq_some hi
  exact ht.addRef hl rfl

theorem incrementReferenceCount_sameRefs {period : Nat}
    (hi : incrementReferenceCount st val period = some st') :
    { st' with validatorHistoricalRewards := st.validatorHistoricalRewards }.SameRefs st := by
  obtain ⟨historical, -, -, rfl⟩ := incrementReferenceCount_eq_some hi
  exact ⟨rfl, rfl, rfl, rfl⟩

theorem decrementReferenceCount_tracks {R : Multiset (ValAddress × Nat)} {period : Nat}
    (ht : Tracks ValidatorHistoricalRewards.referenceCount st.validatorHistoricalRewards
      ((val, period) ::ₘ R))
    (hd : decrementReferenceCount st val period = some st') :
    Tracks ValidatorHistoricalRewards.referenceCount st'.validatorHistoricalRewards R := by
  obtain ⟨historical, hl, ⟨h1, rfl⟩ | ⟨hlt, rfl⟩⟩ := decrementReferenceCount_eq_some hd
  · exact ht.dropLast hl h1
  · exact ht.dropRef hl (by simp only; omega) (by simp only; omega)

theorem decrementReferenceCount_sameRefs {period : Nat}
    (hd : decrementReferenceCount st val period = some st') :
    { st' with validatorHistoricalRewards := st.validatorHistoricalRewards }.SameRefs st := by
  obtain ⟨historical, -, ⟨-, rfl⟩ | ⟨-, rfl⟩⟩ := decrementReferenceCount_eq_some hd <;>
    exact ⟨rfl, rfl, rfl, rfl⟩

/-! ## Each keeper function keeps the counts -/

/-- `initializeValidator` of a validator without a period keeps the counts. -/
theorem Counted.initializeValidator (h : Counted st) (hval : val ∉ st.validatorCurrentPeriod) :
    Counted (initializeValidator st val) := by
  have hp : (Distribution.initializeValidator st val).periodRefs = (val, 0) ::ₘ st.periodRefs := by
    rw [periodRefs, Distribution.initializeValidator]
    dsimp only
    rw [image_insert, image_erase_of_notMem _ hval]
    rfl
  have he : (Distribution.initializeValidator st val).eventRefs = st.eventRefs := rfl
  -- the validator's other periods are those of `st`
  have hlook : ∀ x ∈ st.eventRefs,
      (Distribution.initializeValidator st val).validatorCurrentPeriod.lookup x.1 =
        st.validatorCurrentPeriod.lookup x.1 := by
    intro x hx
    obtain ⟨p, hp', -⟩ := h.ended x hx
    have hne : x.1 ≠ val := by
      rintro rfl
      exact hval (AList.lookup_isSome.1 (by rw [hp']; rfl))
    exact AList.lookup_insert_ne hne
  refine ⟨?_, ?_, ?_, ?_, h.keyed⟩
  · rw [references, hp, he, Multiset.cons_add]
    exact h.tracks.create (h.notMem_references hval 0) rfl
  · intro v p hl
    rw [Distribution.initializeValidator, Ledger.lookup_insert_ite] at hl
    split_ifs at hl
    · cases hl
      exact Nat.one_pos
    · exact h.period_pos v p hl
  · intro x hx
    rw [he] at hx
    rw [hlook x hx]
    exact h.ended x hx
  · rw [he]
    exact h.single

/-- What `incrementValidatorPeriod` writes of the four stores beside the historical records. -/
theorem incrementValidatorPeriod_refs {tokens : SdkInt} {period : Nat}
    (hi : incrementValidatorPeriod st val tokens = some (st', period)) :
    st.validatorCurrentPeriod.lookup val = some period ∧
      st'.validatorCurrentPeriod = st.validatorCurrentPeriod.insert val (period + 1) ∧
      st'.delegatorStartingInfos = st.delegatorStartingInfos ∧
      st'.validatorSlashEvents = st.validatorSlashEvents := by
  obtain ⟨hp, st₀, st₁, ratio, hs₀, hd, -, hcur, hstart, hslash⟩ :=
    incrementValidatorPeriod_eq_some hi
  obtain ⟨-, hc₁, hs₁, he₁⟩ := (decrementReferenceCount_sameRefs hd).trans hs₀
  refine ⟨hp, ?_, hstart.trans hs₁, hslash.trans he₁⟩
  rw [hcur, show st₁.validatorCurrentPeriod = st.validatorCurrentPeriod from hc₁]

theorem mem_incrementValidatorPeriod {tokens : SdkInt} {period : Nat}
    (hi : incrementValidatorPeriod st val tokens = some (st', period)) (w : ValAddress) :
    w ∈ st'.validatorCurrentPeriod ↔ w ∈ st.validatorCurrentPeriod := by
  obtain ⟨hp, hcur, -, -⟩ := incrementValidatorPeriod_refs hi
  rw [hcur, AList.mem_insert]
  constructor
  · rintro (rfl | hw)
    · exact AList.lookup_isSome.1 (by rw [hp]; rfl)
    · exact hw
  · exact Or.inr

/-- `incrementValidatorPeriod` moves the validator's reference to the period it ends. -/
theorem Counted.incrementValidatorPeriod {tokens : SdkInt} {period : Nat} (h : Counted st)
    (hi : incrementValidatorPeriod st val tokens = some (st', period)) :
    Counted st' ∧ st'.Fresh val := by
  obtain ⟨hp, hcur, hstart, hslash⟩ := incrementValidatorPeriod_refs hi
  obtain ⟨-, st₀, st₁, ratio, hs₀, hd, hhist, -⟩ := incrementValidatorPeriod_eq_some hi
  -- the references of `st` but the validator's
  set R := image (fun val period => (val, period - 1)) (st.validatorCurrentPeriod.erase val) +
    st.eventRefs with hR
  have hrefs : st.references = (val, period - 1) ::ₘ R := by
    rw [references, periodRefs, image_erase_of_lookup _ hp, Multiset.cons_add]
  have he : st'.eventRefs = st.eventRefs := by
    simp only [eventRefs, startingRefs, slashRefs, hstart, hslash]
  have hnot : (val, period) ∉ R := by
    rw [hR, Multiset.mem_add, not_or, mem_image]
    refine ⟨?_, h.notMem_eventRefs hp⟩
    rintro ⟨a, b, hl, hab⟩
    obtain rfl : a = val := congrArg Prod.fst hab
    rw [AList.lookup_erase] at hl
    cases hl
  have ht₀ : Tracks ValidatorHistoricalRewards.referenceCount st₀.validatorHistoricalRewards
      ((val, period - 1) ::ₘ R) := by
    rw [hs₀.historical, ← hrefs]
    exact h.tracks
  refine ⟨⟨?_, ?_, ?_, ?_, ?_⟩, ?_⟩
  · rw [references, periodRefs, hcur, periodRefs_insert, he, Multiset.cons_add, hhist]
    exact (decrementReferenceCount_tracks ht₀ hd).create hnot rfl
  · intro v p hl
    rw [hcur, Ledger.lookup_insert_ite] at hl
    split_ifs at hl
    · cases hl
      exact Nat.succ_pos _
    · exact h.period_pos v p hl
  · intro x hx
    rw [he] at hx
    obtain ⟨p, hp', hlt⟩ := h.ended x hx
    rw [hcur, Ledger.lookup_insert_ite]
    split_ifs with hx'
    · rw [hx', hp] at hp'
      cases hp'
      exact ⟨period + 1, rfl, by omega⟩
    · exact ⟨p, hp', hlt⟩
  · rw [he]
    exact h.single
  · rw [hslash]
    exact h.keyed
  · intro p hl
    rw [hcur, AList.lookup_insert] at hl
    cases hl
    rw [he, Nat.add_sub_cancel]
    exact Multiset.count_eq_zero_of_notMem (h.notMem_eventRefs hp)

/-- `updateValidatorSlashFraction` ends the period, and its slash event refers to it. -/
theorem Counted.updateValidatorSlashFraction {tokens : SdkInt} {height : Nat} {fraction : Dec}
    (h : Counted st) (hu : updateValidatorSlashFraction st val tokens height fraction = some st') :
    Counted st' := by
  obtain ⟨st₁, st₂, newPeriod, hi, hr, rfl⟩ := updateValidatorSlashFraction_eq_some hu
  obtain ⟨h₁, hfresh⟩ := h.incrementValidatorPeriod hi
  obtain ⟨-, hcur, -, -⟩ := incrementValidatorPeriod_refs hi
  obtain ⟨-, hc₂, hs₂, he₂⟩ := incrementReferenceCount_sameRefs hr
  have hp₁ : st₁.validatorCurrentPeriod.lookup val = some (newPeriod + 1) := by
    rw [hcur, AList.lookup_insert]
  have hzero : st₁.eventRefs.count (val, newPeriod) = 0 := by
    simpa using hfresh _ hp₁
  -- no slash event of the period yet, so its key is new
  have hkey : (val, height, newPeriod) ∉ st₂.validatorSlashEvents := by
    intro hmem
    obtain ⟨event, hev⟩ := Option.isSome_iff_exists.1 (AList.lookup_isSome.2 hmem)
    have hx : (val, newPeriod) ∈ st₁.eventRefs := by
      rw [eventRefs, Multiset.mem_add, slashRefs, mem_image, ← he₂]
      exact Or.inr ⟨_, event, hev, rfl⟩
    exact Multiset.count_ne_zero.2 hx hzero
  have he : eventRefs { st₂ with
      validatorSlashEvents := st₂.validatorSlashEvents.insert (val, height, newPeriod)
        ⟨newPeriod, fraction⟩ } = (val, newPeriod) ::ₘ st₁.eventRefs := by
    rw [eventRefs, eventRefs, slashRefs, slashRefs, startingRefs, startingRefs]
    dsimp only
    rw [image_insert, image_erase_of_notMem _ hkey, hs₂, he₂, Multiset.add_cons]
  refine ⟨?_, ?_, ?_, ?_, ?_⟩
  · rw [references, he, periodRefs, hc₂, Multiset.add_cons]
    have ht := incrementReferenceCount_tracks h₁.tracks hr
    exact ht
  · simp only
    rw [hc₂]
    exact h₁.period_pos
  · intro x hx
    simp only
    rw [hc₂]
    rw [he, Multiset.mem_cons] at hx
    rcases hx with rfl | hx
    · exact ⟨newPeriod + 1, hp₁, Nat.lt_succ_self _⟩
    · exact h₁.ended x hx
  · intro x
    rw [he, Multiset.count_cons]
    split_ifs with hx
    · subst hx
      rw [hzero]
    · simpa using h₁.single x
  -- the new event records the period of its key
  · intro key event hl
    simp only [Ledger.lookup_insert_ite] at hl
    split_ifs at hl with hk
    · cases hl
      rw [hk]
    · rw [he₂] at hl
      exact h₁.keyed key event hl

/-- `initializeDelegation` of a delegation without a starting info, after the period ended. -/
theorem Counted.initializeDelegation {validator : Staking.Validator} {del : AccAddress}
    {shares : Dec} {height : Nat} (h : Counted st) (hfresh : st.Fresh val)
    (hdel : (val, del) ∉ st.delegatorStartingInfos)
    (hi : initializeDelegation st val validator del shares height = some st') : Counted st' := by
  obtain ⟨period, st₁, stake, hp, hr, rfl⟩ := initializeDelegation_eq_some hi
  obtain ⟨-, hc₁, hs₁, he₁⟩ := incrementReferenceCount_sameRefs hr
  have hzero : st.eventRefs.count (val, period - 1) = 0 := hfresh period hp
  have he : eventRefs { st₁ with
      delegatorStartingInfos := st₁.delegatorStartingInfos.insert (val, del)
        ⟨period - 1, stake, height⟩ } = (val, period - 1) ::ₘ st.eventRefs := by
    rw [eventRefs, eventRefs, slashRefs, slashRefs, startingRefs, startingRefs]
    dsimp only
    rw [image_insert, hs₁, he₁, image_erase_of_notMem _ hdel, Multiset.cons_add]
  refine ⟨?_, ?_, ?_, ?_, ?_⟩
  · rw [references, he, periodRefs, hc₁, Multiset.add_cons]
    have ht := incrementReferenceCount_tracks h.tracks hr
    exact ht
  · simp only
    rw [hc₁]
    exact h.period_pos
  · intro x hx
    simp only
    rw [hc₁]
    rw [he, Multiset.mem_cons] at hx
    rcases hx with rfl | hx
    · exact ⟨period, hp, Nat.sub_lt (h.period_pos val period hp) Nat.one_pos⟩
    · exact h.ended x hx
  · intro x
    rw [he, Multiset.count_cons]
    split_ifs with hx
    · subst hx
      rw [hzero]
    · simpa using h.single x
  · simp only
    rw [he₁]
    exact h.keyed

theorem initializeDelegation_refs {validator : Staking.Validator} {del : AccAddress}
    {shares : Dec} {height : Nat}
    (hi : initializeDelegation st val validator del shares height = some st') :
    st'.validatorCurrentPeriod = st.validatorCurrentPeriod ∧
      (∀ key, key ∈ st'.delegatorStartingInfos ↔ key = (val, del) ∨ key ∈ st.delegatorStartingInfos) ∧
      st'.validatorSlashEvents = st.validatorSlashEvents := by
  obtain ⟨period, st₁, stake, -, hr, rfl⟩ := initializeDelegation_eq_some hi
  obtain ⟨-, hc₁, hs₁, he₁⟩ := incrementReferenceCount_sameRefs hr
  refine ⟨hc₁, fun key => ?_, he₁⟩
  simp only
  rw [AList.mem_insert, hs₁]

/-- Fewer references beside the validators', under the same periods, keep a period fresh. -/
theorem Fresh.of_le (hf : st.Fresh val) (hcur : st'.validatorCurrentPeriod = st.validatorCurrentPeriod)
    (hle : st'.eventRefs ≤ st.eventRefs) : st'.Fresh val := by
  intro period hp
  rw [hcur] at hp
  exact Nat.eq_zero_of_le_zero ((Multiset.count_le_of_le _ hle).trans (hf period hp).le)

section Withdraw

variable {toLower : String → String} {permAddrs : String → Option Supply.PermissionsForAddress}
  {blockTime : Int64}
  {s s' : RewardsState} {validator : Staking.Validator} {del : AccAddress} {shares : Dec}
  {height : Nat} {coins : Coins}

/-- `withdrawDelegationRewards` ends the period and drops the delegation's reference with its
starting info, leaving the period fresh for the delegation to start again. -/
theorem Counted.withdrawDelegationRewards (h : Counted s.store)
    (hw : withdrawDelegationRewards toLower permAddrs blockTime s val validator del shares height =
      some (s', coins)) : Counted s'.store ∧ s'.store.Fresh val := by
  obtain ⟨st₁, endingPeriod, st₂, info, st₃, hinc, hs₂, hi, hd, hs'⟩ :=
    withdrawDelegationRewards_eq_some hw
  obtain ⟨h₁, hf₁⟩ := h.incrementValidatorPeriod hinc
  have h₂ := h₁.of_sameRefs hs₂
  obtain ⟨-, hc₃, hs₃, he₃⟩ := decrementReferenceCount_sameRefs hd
  have hcur : s'.store.validatorCurrentPeriod = st₂.validatorCurrentPeriod := by rw [hs']; exact hc₃
  have hstart : s'.store.delegatorStartingInfos = st₂.delegatorStartingInfos.erase (val, del) := by
    rw [hs']
    simp only
    rw [show st₃.delegatorStartingInfos = st₂.delegatorStartingInfos from hs₃]
  have hslash : s'.store.validatorSlashEvents = st₂.validatorSlashEvents := by rw [hs']; exact he₃
  -- the delegation's reference, beside those left
  have hrefs : st₂.references = (val, info.previousPeriod) ::ₘ s'.store.references := by
    rw [references, references, eventRefs, eventRefs, startingRefs, startingRefs,
      image_erase_of_lookup _ hi, periodRefs, periodRefs, slashRefs, slashRefs, hcur, hstart,
      hslash, Multiset.cons_add, Multiset.add_cons]
  have hle : s'.store.eventRefs ≤ st₂.eventRefs := by
    rw [eventRefs, eventRefs, startingRefs, startingRefs, slashRefs, slashRefs, hstart, hslash]
    exact add_le_add (image_erase_le _ _ _) le_rfl
  have hhist : s'.store.validatorHistoricalRewards = st₃.validatorHistoricalRewards := by rw [hs']
  refine ⟨⟨?_, ?_, ?_, ?_, ?_⟩, ?_⟩
  · rw [hhist]
    exact decrementReferenceCount_tracks (hrefs ▸ h₂.tracks) hd
  · rw [hcur]
    exact h₂.period_pos
  · intro x hx
    rw [hcur]
    exact h₂.ended x (Multiset.mem_of_le hle hx)
  · intro x
    exact (Multiset.count_le_of_le _ hle).trans (h₂.single x)
  · rw [hslash]
    exact h₂.keyed
  · refine Fresh.of_le ?_ (hcur.trans hs₂.currentPeriod) (hle.trans (le_of_eq ?_))
    · exact hf₁
    · simp only [eventRefs, startingRefs, slashRefs, hs₂.startingInfos, hs₂.slashEvents]

theorem withdrawDelegationRewards_refs
    (hw : withdrawDelegationRewards toLower permAddrs blockTime s val validator del shares height =
      some (s', coins)) :
    (∀ w, w ∈ s'.store.validatorCurrentPeriod ↔ w ∈ s.store.validatorCurrentPeriod) ∧
      (∀ key, key ∈ s'.store.delegatorStartingInfos ↔
        key ≠ (val, del) ∧ key ∈ s.store.delegatorStartingInfos) ∧
      s'.store.validatorSlashEvents = s.store.validatorSlashEvents := by
  obtain ⟨st₁, endingPeriod, st₂, info, st₃, hinc, hs₂, -, hd, hs'⟩ :=
    withdrawDelegationRewards_eq_some hw
  obtain ⟨-, -, hstart, hslash⟩ := incrementValidatorPeriod_refs hinc
  obtain ⟨-, hc₃, hs₃, he₃⟩ := decrementReferenceCount_sameRefs hd
  refine ⟨fun w => ?_, fun key => ?_, ?_⟩
  · rw [hs']
    show w ∈ st₃.validatorCurrentPeriod ↔ _
    rw [show st₃.validatorCurrentPeriod = st₂.validatorCurrentPeriod from hc₃, hs₂.currentPeriod]
    exact mem_incrementValidatorPeriod hinc w
  · rw [hs']
    show key ∈ st₃.delegatorStartingInfos.erase (val, del) ↔ _
    rw [AList.mem_erase, show st₃.delegatorStartingInfos = st₂.delegatorStartingInfos from hs₃,
      hs₂.startingInfos, hstart]
  · rw [hs']
    show st₃.validatorSlashEvents = _
    rw [show st₃.validatorSlashEvents = st₂.validatorSlashEvents from he₃, hs₂.slashEvents, hslash]

/-- `AfterValidatorRemoved` of a validator with no delegation left deletes its references with
its records. -/
theorem Counted.afterValidatorRemoved (h : Counted s.store)
    (hdel : ∀ del, (val, del) ∉ s.store.delegatorStartingInfos)
    (hr : afterValidatorRemoved toLower permAddrs blockTime s val = some s') : Counted s'.store := by
  obtain ⟨hhist, hcur, hstart, hslash⟩ := afterValidatorRemoved_eq_some hr
  have hp : s'.store.periodRefs = s.store.periodRefs.filter fun x => x.1 ≠ val := by
    rw [periodRefs, periodRefs, hcur]
    refine image_foldl_erase _ [val] _ _ (fun a ha b => ?_) (fun a b _ hb => ?_)
    · rw [List.mem_singleton.1 ha]
      simp
    · simpa using hb
  have hs : s'.store.slashRefs = s.store.slashRefs.filter fun x => x.1 ≠ val := by
    rw [slashRefs, slashRefs, hslash]
    refine image_foldl_erase _ _ _ _ (fun a ha b => ?_) (fun a b hl hb => ?_)
    · simp only [RewardsStore.keysOf, List.mem_filter, decide_eq_true_eq] at ha
      simpa using ha.2
    · simp only [RewardsStore.keysOf, List.mem_filter, decide_eq_true_eq]
      exact ⟨AList.mem_keys.1 (AList.lookup_isSome.1 (by rw [hl]; rfl)), by simpa using hb⟩
  -- no delegation of the validator is left
  have hst : s'.store.startingRefs = s.store.startingRefs.filter fun x => x.1 ≠ val := by
    rw [startingRefs, startingRefs, hstart, eq_comm, Multiset.filter_eq_self]
    intro x hx
    obtain ⟨⟨a, d⟩, info, hl, rfl⟩ := (mem_image _).1 hx
    rintro rfl
    exact hdel d (AList.lookup_isSome.1 (by rw [hl]; rfl))
  have he : s'.store.eventRefs = s.store.eventRefs.filter fun x => x.1 ≠ val := by
    rw [eventRefs, eventRefs, hs, hst, Multiset.filter_add]
  refine ⟨?_, ?_, ?_, ?_, ?_⟩
  · rw [references, hp, he, ← Multiset.filter_add]
    refine h.tracks.restrict _ fun key => ?_
    rw [hhist, RewardsStore.lookup_deletePrefix, ite_not]
  · intro v p hl
    rw [hcur] at hl
    exact h.period_pos v p (Ledger.lookup_of_lookup_erase hl)
  · intro x hx
    rw [he, Multiset.mem_filter] at hx
    rw [hcur, AList.lookup_erase_ne hx.2]
    exact h.ended x hx.1
  · intro x
    rw [he]
    exact (Multiset.count_le_of_le _ (Multiset.filter_le _ _)).trans (h.single x)
  · intro key event hl
    rw [hslash, RewardsStore.lookup_deletePrefix] at hl
    split_ifs at hl
    exact h.keyed key event hl

end Withdraw

/-! ## The invariant's sum, the records that exist and the bound on each count -/

/-- The counts add up to one per current period, starting info and slash event. -/
theorem Counted.referenceCount (h : Counted st) :
    st.getValidatorHistoricalReferenceCount =
      st.validatorCurrentPeriod.keys.length + st.delegatorStartingInfos.keys.length +
        st.validatorSlashEvents.keys.length := by
  rw [getValidatorHistoricalReferenceCount, h.tracks.sum_eq_card, references, eventRefs,
    Multiset.card_add, Multiset.card_add, periodRefs, startingRefs, slashRefs, card_image,
    card_image, card_image, add_assoc]

/-- No count passes two: the validator's reference and one other. -/
theorem Counted.referenceCount_le (h : Counted st) {key : ValAddress × Nat}
    {historical : ValidatorHistoricalRewards}
    (hl : st.validatorHistoricalRewards.lookup key = some historical) :
    historical.referenceCount ≤ 2 := by
  rw [h.tracks.count_eq hl, references, Multiset.count_add]
  have hp : st.periodRefs.count key ≤ 1 :=
    count_image_le_one _ _ key.1 fun a b _ hab => congrArg Prod.fst hab
  have he := h.single key
  omega

end Barkis.Distribution
