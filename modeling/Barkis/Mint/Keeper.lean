import Barkis.Supply.Keeper

/-!
# The mint module

`x/mint`: at height 1 `BeginBlocker` mints the allotment of `125 · 10¹²` of the mint denom into
the mint module account and takes it as the minter's `RemainedTokens`. At every block it
unfreezes an amount, `556700` before the `RewardUpgrade` and the parameter
`UnfreezeAmountPerBlock` after it, sending it to the fee collector when `RemainedTokens` covers
it, and only then saves the minter with the amount taken off. A block whose amount is not covered
changes nothing; at height 1 it leaves the stored minter as it was, beside the minted coins.

`Ledger s₀ s` is the bookkeeping of a run from the state `s₀` before height 1: the mint module
account holds its former balance plus `RemainedTokens`, and the fee collector its former balance
plus the allotment less `RemainedTokens`.

* `beginBlocker_first`, `beginBlocker_step`: the first block starts the ledger when its amount is
  at most the allotment, and every later block keeps it, unfreezing exactly its amount or
  nothing; neither panics.
* `mint_unfreezing_conserves`: every such run returns and keeps the ledger, and blocks whose
  amounts are above what is left change nothing.
* `unfreezing_resumes_after_upgrade`: after 224537452 blocks of `556700`, `471600` is left, and the
  upgrade's lower amount `431000` unfreezes again; a first block whose amount is above the
  allotment leaves `RemainedTokens` empty while the allotment is minted.
-/

namespace Barkis.Mint

open SortedMerge Bank Supply

/-- `types.ModuleName`. -/
def moduleName : String := "mint"

/-- `auth.FeeCollectorName`. -/
def feeCollectorName : String := "fee_collector"

/-- The allotment minted at height 1, `sdk.NewIntWithDecimal(125, 12)`. -/
def allotment : SdkInt := ⟨125 * 10 ^ 12, by decide⟩

/-- The amount unfrozen per block before the `RewardUpgrade`, `sdk.NewIntWithDecimal(5567, 2)`. -/
def unfreezeAmountBeforeUpgrade : SdkInt := ⟨5567 * 10 ^ 2, by decide⟩

/-- The supply keeper's stores and the minter's `RemainedTokens`. -/
structure State where
  supply : Supply.State
  remainedTokens : Coins

/-- What `BeginBlocker` reads of a block besides its height: whether the `RewardUpgrade` is
applied, the `UnfreezeAmountPerBlock` parameter, and the block time in nanoseconds. -/
structure Block where
  upgraded : Bool
  unfreezeAmountPerBlock : Int64
  time : Nat

/-- The amount of `unfreezenTokens`. -/
def unfreezeAmount (b : Block) : SdkInt :=
  if b.upgraded then SdkInt.newInt b.unfreezeAmountPerBlock else unfreezeAmountBeforeUpgrade

variable (toLower : String → String) (permAddrs : String → Option PermissionsForAddress)
  (blockTime : Int64) (mintDenom : String)

/-- `Keeper.MintCoins`: nothing to mint is skipped. -/
def mintCoins (s : Supply.State) (newCoins : Coins) : Option Supply.State :=
  if newCoins.isEmpty then some s else Supply.mintCoins toLower permAddrs s moduleName newCoins

/-- `Keeper.AddCollectedFees`. -/
def addCollectedFees (s : Supply.State) (fees : Coins) : Option Supply.State :=
  sendCoinsFromModuleToModule toLower permAddrs blockTime s moduleName feeCollectorName fees

/-- `BeginBlocker`. -/
def beginBlocker (s : State) (height : Nat) (b : Block) : Option State := do
  let (supply, remainedTokens) ← (if height = 1 then do
      let mintedCoins ← (newCoin mintDenom allotment).bind fun coin => newCoins toLower [coin]
      let supply ← mintCoins toLower permAddrs s.supply mintedCoins
      pure (supply, mintedCoins)
    else pure (s.supply, s.remainedTokens) : Option (Supply.State × Coins))
  let unfreezenTokens ←
    (newCoin mintDenom (unfreezeAmount b)).bind fun coin => newCoins toLower [coin]
  let covered ← Coins.isAllGTE remainedTokens unfreezenTokens
  if covered then
    -- send the minted coins to the fee collector account
    let supply ← addCollectedFees toLower permAddrs (unixSeconds b.time) supply unfreezenTokens
    let remainedTokens ← Coins.sub remainedTokens unfreezenTokens
    pure ⟨supply, remainedTokens⟩
  else pure { s with supply }

/-- `BeginBlocker` at heights `height`, `height + 1`, …; a panic halts the chain. -/
def run (s : State) (height : Nat) : List Block → Option State
  | [] => some s
  | b :: bs => (beginBlocker toLower permAddrs mintDenom s height b).bind fun s' =>
    run s' (height + 1) bs

/-- The mint denom held at `addr`. -/
def held (s : State) (addr : AccAddress) : Int :=
  Coins.balance (getCoins s.supply.accounts addr) mintDenom

/-- The mint denom left in `RemainedTokens`. -/
def remained (s : State) : Int := Coins.balance s.remainedTokens mintDenom

/-- The mint module account is stored with the minter permission and valid coins. -/
def MintAccount (accs : Accounts) (addr : AccAddress) : Prop :=
  ∃ acc, accs.lookup addr = some acc ∧ hasPermission acc minter = true ∧
    CoinSet.Valid toLower SdkInt.i acc.coins ∧ Coins.DenomsValid acc.coins

/-- The fee collector is stored as a module account with valid coins. -/
def FeeAccount (accs : Accounts) (addr : AccAddress) : Prop :=
  ∃ acc, accs.lookup addr = some acc ∧ acc.permissions.isSome = true ∧
    CoinSet.Valid toLower SdkInt.i acc.coins

/-- What a run needs of the chain before height 1, `s₀`: a valid mint denom, both module
accounts stored at their addresses, and room for the allotment in them and in the supply. -/
structure Setup (s₀ : State) (pm pf : PermissionsForAddress) : Prop where
  lower : ∀ d, DenomValid d → toLower d = d
  denom : DenomValid mintDenom
  mint_perm : permAddrs moduleName = some pm
  fee_perm : permAddrs feeCollectorName = some pf
  ne : pm.address ≠ pf.address
  mint_acc : MintAccount toLower s₀.supply.accounts pm.address
  fee_acc : FeeAccount toLower s₀.supply.accounts pf.address
  supply : CoinSet.NonNeg SdkInt.i s₀.supply.supply
  mint_room : held mintDenom s₀ pm.address + allotment.i < 2 ^ maxBitLen
  fee_room : held mintDenom s₀ pf.address + allotment.i < 2 ^ maxBitLen
  supply_room : Coins.balance s₀.supply.supply mintDenom + allotment.i < 2 ^ maxBitLen

/-- The minter's books after height 1 of a run from `s₀`: the mint module account holds its
former balance plus `RemainedTokens`, the fee collector its former balance plus the allotment
less `RemainedTokens`, no other account has changed, and the supply has grown by the
allotment. -/
structure Ledger (pm pf : PermissionsForAddress) (s₀ s : State) : Prop where
  mint_acc : MintAccount toLower s.supply.accounts pm.address
  fee_acc : FeeAccount toLower s.supply.accounts pf.address
  remained_valid : CoinSet.Valid toLower SdkInt.i s.remainedTokens
  remained_denom : ∀ c ∈ s.remainedTokens, c.denom = mintDenom
  mint_eq : held mintDenom s pm.address = held mintDenom s₀ pm.address + remained mintDenom s
  fee_eq : held mintDenom s pf.address + remained mintDenom s =
    held mintDenom s₀ pf.address + allotment.i
  others : ∀ a, a ≠ pm.address → a ≠ pf.address →
    s.supply.accounts.lookup a = s₀.supply.accounts.lookup a
  supply_eq : ∀ d, Coins.balance s.supply.supply d =
    Coins.balance s₀.supply.supply d + if mintDenom = d then allotment.i else 0

section Spec

variable {toLower permAddrs mintDenom} {s₀ s : State} {pm pf : PermissionsForAddress}

theorem held_of_lookup {a : AccAddress} {acc : Account} (h : s.supply.accounts.lookup a = some acc) :
    held mintDenom s a = Coins.balance acc.coins mintDenom := by
  rw [held, getCoins_of_lookup h]

@[simp] theorem remained_mk (supply : Supply.State) (remainedTokens : Coins) :
    remained mintDenom ⟨supply, remainedTokens⟩ = Coins.balance remainedTokens mintDenom := rfl

/-- Coins of the mint denom only fit at every denom once they fit at the mint denom. -/
theorem room_of_denom {a amt : Coins} (h : ∀ c ∈ amt, c.denom = mintDenom)
    (hroom : Coins.balance a mintDenom + Coins.balance amt mintDenom < 2 ^ maxBitLen)
    (d : String) : Coins.balance a d + Coins.balance amt d < 2 ^ maxBitLen := by
  by_cases hd : d = mintDenom
  · exact hd ▸ hroom
  · have hb : (Coins.balance a d).natAbs < 2 ^ maxBitLen :=
      CoinSet.balance_bound SdkInt.amountOps_lawful a d
    rw [Coins.balance_of_denom_ne h hd, add_zero]
    exact lt_of_le_of_lt Int.le_natAbs (by exact_mod_cast hb)

/-- Moving coins of a valid mint denom keeps every denom of an account valid. -/
theorem denomsValid_of_frame {a c : Coins} (hd : DenomValid mintDenom)
    (hc : CoinSet.Valid toLower SdkInt.i c) (ha : Coins.DenomsValid a)
    (hframe : ∀ d, d ≠ mintDenom → Coins.balance c d = Coins.balance a d) : Coins.DenomsValid c :=
  Coins.denomsValid_of_balance hc fun d hne => by
    by_cases h : d = mintDenom
    · exact h ▸ hd
    · exact ha.of_balance_ne (hframe d h ▸ hne)

/-- Height 1 mints the allotment into the mint module account and starts the ledger with all of
it remaining. -/
theorem Setup.mint (hs : Setup toLower permAddrs mintDenom s₀ pm pf) :
    ∃ minted supply, ((newCoin mintDenom allotment).bind fun coin => newCoins toLower [coin]) =
        some minted ∧ mintCoins toLower permAddrs s₀.supply minted = some supply ∧
      Ledger toLower mintDenom pm pf s₀ ⟨supply, minted⟩ ∧
      remained mintDenom ⟨supply, minted⟩ = allotment.i := by
  obtain ⟨minted, hnew, hv, hd, hbal⟩ := newCoins_newCoin hs.denom (show 0 ≤ allotment.i by decide)
  obtain ⟨accM, hlM, hpM, hvM, hdM⟩ := hs.mint_acc
  obtain ⟨accF, hlF, hpF, hvF⟩ := hs.fee_acc
  have hamt : Coins.balance minted mintDenom = allotment.i := by rw [hbal, if_pos rfl]
  have hne : minted.isEmpty = false := by
    cases minted with
    | nil => exact absurd hamt (by rw [Coins.balance_nil]; decide)
    | cons _ _ => rfl
  have hroom : ∀ d, Coins.balance accM.coins d + Coins.balance minted d < 2 ^ maxBitLen :=
    room_of_denom hd (by rw [hamt, ← held_of_lookup hlM]; exact hs.mint_room)
  have hroomS : ∀ d, Coins.balance s₀.supply.supply d + Coins.balance minted d < 2 ^ maxBitLen :=
    room_of_denom hd (by rw [hamt]; exact hs.supply_room)
  obtain ⟨c, supply, hmint, hvc, hbc, hbS⟩ :=
    Supply.mintCoins_succeeds hs.lower hs.mint_perm hlM hpM hvM hv hroom hs.supply hroomS
  have hlM' : (s₀.supply.accounts.insert pm.address { accM with coins := c }).lookup pm.address =
      some { accM with coins := c } := AList.lookup_insert _
  have hlF' : (s₀.supply.accounts.insert pm.address { accM with coins := c }).lookup pf.address =
      some accF := by rw [AList.lookup_insert_ne (Ne.symm hs.ne), hlF]
  refine ⟨minted, _, hnew, by rw [mintCoins, hne]; exact hmint,
    ⟨⟨{ accM with coins := c }, hlM', hpM, hvc, ?_⟩,
    ⟨accF, hlF', hpF, hvF⟩, hv, hd, ?_, ?_, ?_, fun d => by rw [hbS, hbal]⟩, hamt⟩
  · exact denomsValid_of_frame hs.denom hvc hdM fun d h => by
      rw [hbc, Coins.balance_of_denom_ne hd h, add_zero]
  · -- the module account gained the allotment, all of it remaining
    rw [held_of_lookup hlM', held_of_lookup hlM, remained_mk, hbc, hamt]
  · rw [held_of_lookup hlF', held_of_lookup hlF, remained_mk, hamt]
  · intro a ha _
    exact AList.lookup_insert_ne ha

/-- Unfreezing coins of the mint denom that `RemainedTokens` covers: `AddCollectedFees` and
`Sub` return, and the ledger holds with the amount moved from what remains to the fee
collector. -/
theorem Ledger.unfreeze (hs : Setup toLower permAddrs mintDenom s₀ pm pf)
    (hl : Ledger toLower mintDenom pm pf s₀ s) (t : Int64) {u : Coins}
    (hu : CoinSet.Valid toLower SdkInt.i u)
    (hud : ∀ c ∈ u, c.denom = mintDenom) (hle : Coins.balance u mintDenom ≤ remained mintDenom s) :
    ∃ supply remainedTokens, addCollectedFees toLower permAddrs t s.supply u = some supply ∧
      Coins.sub s.remainedTokens u = some remainedTokens ∧
      Ledger toLower mintDenom pm pf s₀ ⟨supply, remainedTokens⟩ ∧
      remained mintDenom ⟨supply, remainedTokens⟩ =
        remained mintDenom s - Coins.balance u mintDenom ∧
      held mintDenom ⟨supply, remainedTokens⟩ pf.address =
        held mintDenom s pf.address + Coins.balance u mintDenom := by
  obtain ⟨accM, hlM, hpM, hvM, hdM⟩ := hl.mint_acc
  obtain ⟨accF, hlF, hpF, hvF⟩ := hl.fee_acc
  obtain ⟨accM₀, hlM₀, -, hvM₀, -⟩ := hs.mint_acc
  have hmint := hl.mint_eq
  have hfee := hl.fee_eq
  rw [held_of_lookup hlM, held_of_lookup hlM₀] at hmint
  rw [held_of_lookup hlF] at hfee
  unfold remained at hle hmint hfee
  -- the module account holds at least `RemainedTokens`
  have hheld₀ : 0 ≤ Coins.balance accM₀.coins mintDenom :=
    CoinSet.balance_nonneg hvM₀.nonNeg.nonneg _
  have hle' : ∀ d, Coins.balance u d ≤ Coins.balance accM.coins d := fun d => by
    by_cases hd : d = mintDenom
    · subst hd
      omega
    · rw [Coins.balance_of_denom_ne hud hd]
      exact CoinSet.balance_nonneg hvM.nonNeg.nonneg d
  have hroom : ∀ d, Coins.balance accF.coins d + Coins.balance u d < 2 ^ maxBitLen :=
    room_of_denom hud (by have := hs.fee_room; omega)
  obtain ⟨c₁, c₂, hsend, hv₁, hv₂, hb₁, hb₂⟩ := sendCoinsFromModuleToModule_succeeds hs.lower
    hs.mint_perm hs.fee_perm hs.ne hlM hlF (permissions_isSome_of_hasPermission hpM) hpF hvM hdM hvF
    hu hle' hroom
  obtain ⟨r, hsub, hvr, hdr, hbr⟩ :=
    Coins.sub_of_denom hs.lower hs.denom hl.remained_valid hu hl.remained_denom hud hle
  have hlM' : ((s.supply.accounts.insert pm.address { accM with coins := c₁ }).insert pf.address
      { accF with coins := c₂ }).lookup pm.address = some { accM with coins := c₁ } := by
    rw [AList.lookup_insert_ne hs.ne, AList.lookup_insert]
  have hlF' : ((s.supply.accounts.insert pm.address { accM with coins := c₁ }).insert pf.address
      { accF with coins := c₂ }).lookup pf.address = some { accF with coins := c₂ } :=
    AList.lookup_insert _
  refine ⟨_, r, hsend, hsub, ⟨⟨{ accM with coins := c₁ }, hlM', hpM, hv₁, ?_⟩,
    ⟨{ accF with coins := c₂ }, hlF', hpF, hv₂⟩, hvr, hdr, ?_, ?_, ?_, hl.supply_eq⟩, ?_, ?_⟩
  · exact denomsValid_of_frame hs.denom hv₁ hdM fun d h => by
      rw [hb₁, Coins.balance_of_denom_ne hud h, sub_zero]
  · rw [held_of_lookup hlM', held_of_lookup hlM₀, remained_mk, hb₁, hbr]
    omega
  · rw [held_of_lookup hlF', remained_mk, hb₂, hbr]
    omega
  · intro a ha hb
    rw [AList.lookup_insert_ne hb, AList.lookup_insert_ne ha]
    exact hl.others a ha hb
  · rw [remained_mk, hbr, remained]
  · rw [held_of_lookup hlF', held_of_lookup hlF, hb₂]

/-- The coins a block unfreezes: valid, of the mint denom only, worth the block's amount, and
compared with `RemainedTokens` at the mint denom. -/
theorem Ledger.unfreezen (hs : Setup toLower permAddrs mintDenom s₀ pm pf)
    (hl : Ledger toLower mintDenom pm pf s₀ s) {b : Block} (hb : 0 ≤ (unfreezeAmount b).i) :
    ∃ u, ((newCoin mintDenom (unfreezeAmount b)).bind fun coin => newCoins toLower [coin]) =
        some u ∧ CoinSet.Valid toLower SdkInt.i u ∧ (∀ c ∈ u, c.denom = mintDenom) ∧
      Coins.balance u mintDenom = (unfreezeAmount b).i ∧
      Coins.isAllGTE s.remainedTokens u =
        some (decide ((unfreezeAmount b).i ≤ remained mintDenom s)) := by
  obtain ⟨u, hnew, hu, hud, hbal⟩ := @newCoins_newCoin toLower _ _ hs.denom hb
  have hamt : Coins.balance u mintDenom = (unfreezeAmount b).i := by rw [hbal, if_pos rfl]
  have hcmp := Coins.isAllGTE_of_denom hs.denom hl.remained_valid hu hl.remained_denom hud
  rw [hamt] at hcmp
  exact ⟨u, hnew, hu, hud, hamt, hcmp⟩

/-- A block after the first returns and keeps the ledger: it unfreezes exactly its amount when
`RemainedTokens` covers it, and changes nothing otherwise. -/
theorem beginBlocker_step (hs : Setup toLower permAddrs mintDenom s₀ pm pf)
    (hl : Ledger toLower mintDenom pm pf s₀ s) {height : Nat} (hh : height ≠ 1) {b : Block}
    (hb : 0 ≤ (unfreezeAmount b).i) :
    ∃ s', beginBlocker toLower permAddrs mintDenom s height b = some s' ∧
      Ledger toLower mintDenom pm pf s₀ s' ∧
      if (unfreezeAmount b).i ≤ remained mintDenom s then
        remained mintDenom s' = remained mintDenom s - (unfreezeAmount b).i ∧
        held mintDenom s' pf.address = held mintDenom s pf.address + (unfreezeAmount b).i
      else s' = s := by
  obtain ⟨u, hnew, hu, hud, hamt, hcmp⟩ := hl.unfreezen hs hb
  simp only [beginBlocker, if_neg hh, pure_bind, hnew, Option.bind_eq_bind, Option.bind_some, hcmp]
  by_cases hle : (unfreezeAmount b).i ≤ remained mintDenom s
  · obtain ⟨supply, r, hadd, hsub, hl', hr, hf⟩ :=
      hl.unfreeze hs (unixSeconds b.time) hu hud (hamt ▸ hle)
    refine ⟨⟨supply, r⟩, ?_, hl', ?_⟩
    · simp only [decide_eq_true hle, if_true, hadd, hsub, Option.bind_some]
      rfl
    · rw [if_pos hle, ← hamt]
      exact ⟨hr, hf⟩
  · -- not covered: the minter is not saved
    refine ⟨s, ?_, hl, by rw [if_neg hle]⟩
    simp only [decide_eq_false hle, Bool.false_eq_true, if_false]
    rfl

/-- The block at height 1 returns and starts the ledger when its amount is at most the
allotment, which it unfreezes from. -/
theorem beginBlocker_first (hs : Setup toLower permAddrs mintDenom s₀ pm pf) {b : Block}
    (hb : 0 ≤ (unfreezeAmount b).i) (hfirst : (unfreezeAmount b).i ≤ allotment.i) :
    ∃ s, beginBlocker toLower permAddrs mintDenom s₀ 1 b = some s ∧
      Ledger toLower mintDenom pm pf s₀ s ∧
      remained mintDenom s = allotment.i - (unfreezeAmount b).i ∧
      held mintDenom s pf.address = held mintDenom s₀ pf.address + (unfreezeAmount b).i := by
  obtain ⟨minted, supply, hminted, hmint, hl, hr⟩ := hs.mint
  obtain ⟨u, hnew, hu, hud, hamt, hcmp⟩ := hl.unfreezen hs hb
  have hle : (unfreezeAmount b).i ≤ remained mintDenom ⟨supply, minted⟩ := hr ▸ hfirst
  obtain ⟨supply', r, hadd, hsub, hl', hr', hf'⟩ :=
    hl.unfreeze hs (unixSeconds b.time) hu hud (hamt ▸ hle)
  refine ⟨⟨supply', r⟩, ?_, hl', by rw [hr', hamt, hr], ?_⟩
  · simp only [beginBlocker, hminted, hmint, Option.bind_eq_bind, Option.bind_some,
      pure_bind, hnew, hcmp, decide_eq_true hle, if_true, hadd, hsub]
    rfl
  · -- the fee collector holds in the minted state what it held before height 1
    have hfee₁ : held mintDenom ⟨supply, minted⟩ pf.address = held mintDenom s₀ pf.address := by
      have := hl.fee_eq
      rw [hr] at this
      omega
    rw [hf', hfee₁, hamt]

/-- A block at height 1 whose amount is above the allotment mints the allotment into the module
account but leaves the minter unsaved, with `RemainedTokens` as before. -/
theorem beginBlocker_first_uncovered (hs : Setup toLower permAddrs mintDenom s₀ pm pf)
    {b : Block} (hb : 0 ≤ (unfreezeAmount b).i) (hover : allotment.i < (unfreezeAmount b).i) :
    ∃ s, beginBlocker toLower permAddrs mintDenom s₀ 1 b = some s ∧
      s.remainedTokens = s₀.remainedTokens ∧
      held mintDenom s pm.address = held mintDenom s₀ pm.address + allotment.i := by
  obtain ⟨minted, supply, hminted, hmint, hl, hr⟩ := hs.mint
  obtain ⟨u, hnew, -, -, -, hcmp⟩ := hl.unfreezen hs hb
  have hlt : ¬(unfreezeAmount b).i ≤ remained mintDenom ⟨supply, minted⟩ := hr ▸ not_le.2 hover
  refine ⟨⟨supply, s₀.remainedTokens⟩, ?_, rfl, ?_⟩
  · simp only [beginBlocker, hminted, hmint, Option.bind_eq_bind, Option.bind_some, pure_bind,
      hnew, hcmp, decide_eq_false hlt, Bool.false_eq_true, if_true, if_false]
    rfl
  · -- `held` does not read `RemainedTokens`
    have hm := hl.mint_eq
    rw [hr] at hm
    exact hm

end Spec

section Run

variable {toLower permAddrs mintDenom} {s₀ : State} {pm pf : PermissionsForAddress}

theorem run_append (s : State) (height : Nat) (l₁ l₂ : List Block) :
    run toLower permAddrs mintDenom s height (l₁ ++ l₂) =
      (run toLower permAddrs mintDenom s height l₁).bind fun s' =>
        run toLower permAddrs mintDenom s' (height + l₁.length) l₂ := by
  induction l₁ generalizing s height with
  | nil => rfl
  | cons b l₁ ih =>
    simp only [List.cons_append, run, ih, Option.bind_assoc, List.length_cons]
    congr 1
    funext s'
    rw [Nat.add_assoc, Nat.add_comm 1]

/-- Every run after height 1 returns and keeps the ledger. -/
theorem run_ledger (hs : Setup toLower permAddrs mintDenom s₀ pm pf) :
    ∀ {blocks : List Block} {s : State} {height : Nat}, Ledger toLower mintDenom pm pf s₀ s →
      1 < height → (∀ b ∈ blocks, 0 ≤ (unfreezeAmount b).i) →
      ∃ s', run toLower permAddrs mintDenom s height blocks = some s' ∧
        Ledger toLower mintDenom pm pf s₀ s'
  | [], s, _, hl, _, _ => ⟨s, rfl, hl⟩
  | b :: blocks, s, height, hl, hh, hpos => by
    obtain ⟨s', hstep, hl', -⟩ :=
      beginBlocker_step hs hl (Nat.ne_of_gt hh) (hpos b List.mem_cons_self)
    obtain ⟨s'', hrun, hl''⟩ :=
      run_ledger hs hl' (show 1 < height + 1 by omega) fun b' hb' => hpos b' (List.mem_cons_of_mem b hb')
    exact ⟨s'', by rw [run, hstep, Option.bind_some, hrun], hl''⟩

/-- Blocks whose amounts `RemainedTokens` does not cover change nothing. -/
theorem run_uncovered (hs : Setup toLower permAddrs mintDenom s₀ pm pf)
    {s : State} (hl : Ledger toLower mintDenom pm pf s₀ s) :
    ∀ {blocks : List Block} {height : Nat}, 1 < height →
      (∀ b ∈ blocks, 0 ≤ (unfreezeAmount b).i ∧ remained mintDenom s < (unfreezeAmount b).i) →
      run toLower permAddrs mintDenom s height blocks = some s
  | [], _, _, _ => rfl
  | b :: blocks, height, hh, hlt => by
    have hb := hlt b List.mem_cons_self
    obtain ⟨s', hstep, -, hs'⟩ := beginBlocker_step hs hl (Nat.ne_of_gt hh) hb.1
    rw [if_neg (not_le.2 hb.2)] at hs'
    subst hs'
    rw [run, hstep, Option.bind_some]
    exact run_uncovered hs hl (show 1 < height + 1 by omega) fun b' hb' => hlt b' (List.mem_cons_of_mem b hb')

/-- `k` blocks of one amount that `RemainedTokens` covers `k` times each unfreeze it. -/
theorem run_replicate (hs : Setup toLower permAddrs mintDenom s₀ pm pf) {b : Block}
    (hb : 0 ≤ (unfreezeAmount b).i) :
    ∀ (k : Nat) {s : State} {height : Nat}, Ledger toLower mintDenom pm pf s₀ s → 1 < height →
      k * (unfreezeAmount b).i ≤ remained mintDenom s →
      ∃ s', run toLower permAddrs mintDenom s height (List.replicate k b) = some s' ∧
        Ledger toLower mintDenom pm pf s₀ s' ∧
        remained mintDenom s' = remained mintDenom s - k * (unfreezeAmount b).i ∧
        held mintDenom s' pf.address = held mintDenom s pf.address + k * (unfreezeAmount b).i
  | 0, s, _, hl, _, _ => ⟨s, rfl, hl, by simp, by simp⟩
  | k + 1, s, height, hl, hh, hk => by
    have hle : (unfreezeAmount b).i ≤ remained mintDenom s := by push_cast at hk; nlinarith
    obtain ⟨s', hstep, hl', hs'⟩ := beginBlocker_step hs hl (Nat.ne_of_gt hh) hb
    rw [if_pos hle] at hs'
    obtain ⟨s'', hrun, hl'', hr, hf⟩ :=
      run_replicate hs hb k hl' (show 1 < height + 1 by omega) (by push_cast at hk; rw [hs'.1]; linarith)
    refine ⟨s'', by rw [List.replicate_succ, run, hstep, Option.bind_some, hrun], hl'', ?_, ?_⟩
    · rw [hr, hs'.1]
      push_cast
      ring
    · rw [hf, hs'.2]
      push_cast
      ring

end Run

section Genesis

/-- The mint module account at `[1]`. -/
def mintAddrs : PermissionsForAddress := ⟨[1], [minter]⟩

/-- The fee collector at `[2]`. -/
def feeAddrs : PermissionsForAddress := ⟨[2], []⟩

/-- The module permissions of a chain with only the mint module and the fee collector. -/
def genesisPerms (name : String) : Option PermissionsForAddress :=
  if name = moduleName then some mintAddrs
  else if name = feeCollectorName then some feeAddrs
  else none

/-- That chain before height 1: both module accounts empty, and no supply. -/
def genesis : State :=
  ⟨⟨((∅ : Accounts).insert [1] ⟨[], .module [minter]⟩).insert [2] ⟨[], .module []⟩, []⟩, []⟩

/-- A block before the `RewardUpgrade`. -/
def preUpgrade : Block := ⟨false, 0, 0⟩

/-- A block after the `RewardUpgrade`, with the amount the upgrade sets. -/
def upgradeBlock : Block := ⟨true, 431000, 0⟩

theorem valid_nil : CoinSet.Valid id SdkInt.i [] :=
  ⟨List.Pairwise.nil, by simp, by simp, by simp⟩

theorem genesis_setup : Setup id genesisPerms "ubarkis" genesis mintAddrs feeAddrs where
  lower _ _ := rfl
  denom := by decide
  mint_perm := rfl
  fee_perm := rfl
  ne := by decide
  mint_acc := ⟨_, rfl, rfl, valid_nil, fun _ h => absurd h List.not_mem_nil⟩
  fee_acc := ⟨_, rfl, rfl, valid_nil⟩
  supply := ⟨List.Pairwise.nil, fun _ h => absurd h List.not_mem_nil⟩
  mint_room := by decide
  fee_room := by decide
  supply_room := by decide

end Genesis

section Conservation

variable {toLower permAddrs mintDenom} {s₀ : State} {pm pf : PermissionsForAddress}

/-- Over a run from height 1 whose first amount is at most the allotment, every call returns;
the mint module account holds its balance from before the run plus `RemainedTokens`, which is
never negative; `RemainedTokens` and what the fee collector gained make up the allotment; no other
account changes, and the supply grows by the allotment; and later blocks whose amounts
`RemainedTokens` does not cover change nothing. -/
theorem mint_unfreezing_conserves (hs : Setup toLower permAddrs mintDenom s₀ pm pf)
    {b₁ : Block} {blocks : List Block} (hpos : ∀ b ∈ b₁ :: blocks, 0 ≤ (unfreezeAmount b).i)
    (hfirst : (unfreezeAmount b₁).i ≤ allotment.i) :
    ∃ s, run toLower permAddrs mintDenom s₀ 1 (b₁ :: blocks) = some s ∧
      0 ≤ remained mintDenom s ∧
      held mintDenom s pm.address = held mintDenom s₀ pm.address + remained mintDenom s ∧
      remained mintDenom s + (held mintDenom s pf.address - held mintDenom s₀ pf.address) =
        allotment.i ∧
      (∀ a, a ≠ pm.address → a ≠ pf.address →
        s.supply.accounts.lookup a = s₀.supply.accounts.lookup a) ∧
      (∀ d, Coins.balance s.supply.supply d =
        Coins.balance s₀.supply.supply d + if mintDenom = d then allotment.i else 0) ∧
      ∀ later : List Block,
        (∀ b ∈ later, 0 ≤ (unfreezeAmount b).i ∧ remained mintDenom s < (unfreezeAmount b).i) →
        run toLower permAddrs mintDenom s₀ 1 (b₁ :: blocks ++ later) = some s := by
  obtain ⟨s₁, hstep, hl₁, -, -⟩ := beginBlocker_first hs (hpos b₁ List.mem_cons_self) hfirst
  obtain ⟨s, hrun, hl⟩ := run_ledger hs hl₁ (show 1 < 1 + 1 by omega)
    fun b hb => hpos b (List.mem_cons_of_mem b₁ hb)
  have hrun₁ : run toLower permAddrs mintDenom s₀ 1 (b₁ :: blocks) = some s := by
    rw [run, hstep, Option.bind_some, hrun]
  have hfee := hl.fee_eq
  refine ⟨s, hrun₁, CoinSet.balance_nonneg hl.remained_valid.nonNeg.nonneg _, hl.mint_eq,
    by omega, hl.others, hl.supply_eq, fun later hlater => ?_⟩
  -- the run so far ends at `s`, from which the later blocks change nothing
  rw [run_append, hrun₁, Option.bind_some]
  exact run_uncovered hs hl (by simp) hlater

theorem mint_unfreezing_conserves_genesis :
    ∃ s, run id genesisPerms "ubarkis" genesis 1 [preUpgrade, upgradeBlock] = some s ∧
      remained "ubarkis" s + held "ubarkis" s [2] = 125 * 10 ^ 12 := by
  obtain ⟨s, hrun, -, -, hfee, -⟩ :=
    mint_unfreezing_conserves genesis_setup
      (show ∀ b ∈ [preUpgrade, upgradeBlock], 0 ≤ (unfreezeAmount b).i by decide)
      (show (unfreezeAmount preUpgrade).i ≤ allotment.i by decide)
  have h₀ : held "ubarkis" genesis feeAddrs.address = 0 := rfl
  exact ⟨s, hrun, by rw [h₀, sub_zero] at hfee; exact hfee⟩

/-- Transfers stop only while the amount stays above `RemainedTokens`: after 224537452 blocks of
`556700`, `471600` is left and another such block changes nothing, but the upgrade's `431000`
unfreezes again. A first block above the allotment mints it and leaves `RemainedTokens` empty. -/
theorem unfreezing_resumes_after_upgrade :
    (∃ s s', run id genesisPerms "ubarkis" genesis 1 (List.replicate 224537452 preUpgrade) =
        some s ∧ remained "ubarkis" s = 471600 ∧
      run id genesisPerms "ubarkis" s 224537453 [preUpgrade] = some s ∧
      run id genesisPerms "ubarkis" s 224537453 [upgradeBlock] = some s' ∧
      remained "ubarkis" s' = 40600 ∧ held "ubarkis" s' [2] = held "ubarkis" s [2] + 431000) ∧
    ∃ s, run id genesisPerms "ubarkis" genesis 1 [⟨true, 250000000000000, 0⟩] = some s ∧
      remained "ubarkis" s = 0 ∧ held "ubarkis" s [1] = 125 * 10 ^ 12 := by
  have hpre : (unfreezeAmount preUpgrade).i = 556700 := rfl
  have hup : (unfreezeAmount upgradeBlock).i = 431000 := by decide
  obtain ⟨s₁, hstep₁, hl₁, hr₁, -⟩ :=
    beginBlocker_first genesis_setup (by rw [hpre]; decide) (by rw [hpre]; decide)
  obtain ⟨s, hrun, hl, hr, -⟩ := run_replicate genesis_setup (by rw [hpre]; decide) 224537451 hl₁
    (show 1 < 1 + 1 by omega) (by rw [hr₁, hpre]; decide)
  have hleft : remained "ubarkis" s = 471600 := by
    rw [hr, hr₁, hpre]
    decide
  obtain ⟨s', hstep, -, hs'⟩ := beginBlocker_step genesis_setup hl (show 224537453 ≠ 1 by omega)
    (by rw [hup]; decide)
  rw [if_pos (by rw [hup, hleft]; decide)] at hs'
  refine ⟨⟨s, s', ?_, hleft, ?_, by rw [run, hstep]; rfl, ?_, ?_⟩, ?_⟩
  · rw [List.replicate_succ, run, hstep₁, Option.bind_some, hrun]
  · exact run_uncovered genesis_setup hl (by omega) fun b hb => by
      rw [List.mem_singleton.1 hb, hpre, hleft]
      decide
  · rw [hs'.1, hleft, hup]
    decide
  · exact hs'.2.trans (by rw [hup]; rfl)
  · obtain ⟨s, hstep, hkeep, hheld⟩ := beginBlocker_first_uncovered genesis_setup
      (b := ⟨true, 250000000000000, 0⟩) (by decide) (by decide)
    exact ⟨s, by rw [run, hstep]; rfl, by rw [remained, hkeep]; rfl, hheld.trans (by rfl)⟩

end Conservation

end Barkis.Mint
