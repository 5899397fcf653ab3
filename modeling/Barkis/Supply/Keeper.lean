import Barkis.Bank.Keeper

/-!
# The supply keeper

`x/supply/internal/keeper`. Every module registered by name has an address and permissions; its
module account is created, empty, the first time the keeper asks for it. The keeper moves coins
between module accounts and base accounts through the bank keeper, and `MintCoins` / `BurnCoins`
change the total supply beside the account store. A call that returns an error or panics is
`none`, and a transaction is written whole or not at all (`run`).

* `step_moves`: what one call adds to the accounts' total and to the supply (`Moves`).
  Transfers add nothing to either, `MintCoins` adds the amount to both, `BurnCoins` takes it off
  both.
* `supply_conserved`: from a state whose accounts hold the supply, every run whose calls make no
  self-undelegation ends in such a state.
* `undelegate_self_breaks_supply`: `UndelegateCoinsFromModuleToAccount` back to the module's own
  address adds the amount to the accounts and leaves the supply, so the invariant fails.
-/

namespace Barkis.Supply

open SortedMerge Bank

/-- `types.Minter`. -/
def minter : String := "minter"

/-- `types.Burner`. -/
def burner : String := "burner"

/-- `types.Staking`. -/
def staking : String := "staking"

/-- `types.PermissionsForAddress`: a registered module's address and permissions. -/
structure PermissionsForAddress where
  address : AccAddress
  permissions : List String

/-- The supply keeper's stores: the accounts, and `Supply.Total`. -/
structure State where
  accounts : Accounts
  supply : Coins

/-- `ModuleAccount.HasPermission`. -/
def hasPermission (acc : Account) (permission : String) : Bool :=
  (acc.permissions.getD []).contains permission

variable (toLower : String → String) (permAddrs : String → Option PermissionsForAddress)
  (blockTime : Int64)

/-- `GetModuleAddress`. -/
def getModuleAddress (moduleName : String) : Option AccAddress :=
  (permAddrs moduleName).map PermissionsForAddress.address

/-- `GetModuleAccount`: the module account with its address, and the account store, where a
missing module account has been created with no coins. An unregistered module has none, and a
base account at the module's address panics. -/
def getModuleAccount (accs : Accounts) (moduleName : String) :
    Option (Accounts × AccAddress × Account) :=
  match permAddrs moduleName with
  | none => none
  | some permAddr =>
    match accs.lookup permAddr.address with
    | some acc => if acc.permissions.isSome then some (accs, permAddr.address, acc) else none
    | none =>
      let macc : Account := ⟨[], .module permAddr.permissions⟩
      some (accs.insert permAddr.address macc, permAddr.address, macc)

/-- `SendCoinsFromModuleToAccount`. -/
def sendCoinsFromModuleToAccount (s : State) (senderModule : String) (recipientAddr : AccAddress)
    (amt : Coins) : Option State :=
  (getModuleAddress permAddrs senderModule).bind fun senderAddr =>
    (sendCoins toLower blockTime s.accounts senderAddr recipientAddr amt).map fun accounts => { s with accounts }

/-- `SendCoinsFromModuleToModule`: the recipient's module account is created first. -/
def sendCoinsFromModuleToModule (s : State) (senderModule recipientModule : String) (amt : Coins) :
    Option State :=
  (getModuleAddress permAddrs senderModule).bind fun senderAddr =>
    (getModuleAccount permAddrs s.accounts recipientModule).bind fun (accs, recipientAddr, _) =>
      (sendCoins toLower blockTime accs senderAddr recipientAddr amt).map fun accounts => { s with accounts }

/-- `SendCoinsFromAccountToModule`. -/
def sendCoinsFromAccountToModule (s : State) (senderAddr : AccAddress) (recipientModule : String)
    (amt : Coins) : Option State :=
  (getModuleAccount permAddrs s.accounts recipientModule).bind fun (accs, recipientAddr, _) =>
    (sendCoins toLower blockTime accs senderAddr recipientAddr amt).map fun accounts => { s with accounts }

/-- `DelegateCoinsFromAccountToModule`: the module needs the staking permission. -/
def delegateCoinsFromAccountToModule (s : State) (senderAddr : AccAddress) (recipientModule : String)
    (amt : Coins) : Option State :=
  (getModuleAccount permAddrs s.accounts recipientModule).bind fun (accs, recipientAddr, recipientAcc) =>
    if hasPermission recipientAcc staking then
      (delegateCoins toLower blockTime accs senderAddr recipientAddr amt).map fun accounts => { s with accounts }
    else none

/-- `UndelegateCoinsFromModuleToAccount`: the module needs the staking permission. -/
def undelegateCoinsFromModuleToAccount (s : State) (senderModule : String) (recipientAddr : AccAddress)
    (amt : Coins) : Option State :=
  (getModuleAccount permAddrs s.accounts senderModule).bind fun (accs, addr, acc) =>
    if hasPermission acc staking then
      (undelegateCoins toLower accs addr recipientAddr amt).map fun accounts => { s with accounts }
    else none

/-- `MintCoins`: the amount is added to the module account, then to the supply (`Inflate`). -/
def mintCoins (s : State) (moduleName : String) (amt : Coins) : Option State :=
  (getModuleAccount permAddrs s.accounts moduleName).bind fun (accs, addr, acc) =>
    if hasPermission acc minter then
      (addCoins toLower accs addr amt).bind fun accounts =>
        (Coins.add s.supply amt).map fun supply => ⟨accounts, supply⟩
    else none

/-- `BurnCoins`: the amount is taken from the module account, then from the supply (`Deflate`). -/
def burnCoins (s : State) (moduleName : String) (amt : Coins) : Option State :=
  (getModuleAccount permAddrs s.accounts moduleName).bind fun (accs, addr, acc) =>
    if hasPermission acc burner then
      (subtractCoins toLower blockTime accs addr amt).bind fun accounts =>
        (Coins.sub s.supply amt).map fun supply => ⟨accounts, supply⟩
    else none

/-- The bank and supply keeper calls that move coins. -/
inductive Op
  | sendCoins (fromAddr toAddr : AccAddress) (amt : Coins)
  | inputOutputCoins (inputs : List Input) (outputs : List Output)
  | delegateCoins (delegatorAddr moduleAccAddr : AccAddress) (amt : Coins)
  | undelegateCoins (moduleAccAddr delegatorAddr : AccAddress) (amt : Coins)
  | sendCoinsFromModuleToAccount (senderModule : String) (recipientAddr : AccAddress) (amt : Coins)
  | sendCoinsFromModuleToModule (senderModule recipientModule : String) (amt : Coins)
  | sendCoinsFromAccountToModule (senderAddr : AccAddress) (recipientModule : String) (amt : Coins)
  | delegateCoinsFromAccountToModule (senderAddr : AccAddress) (recipientModule : String)
      (amt : Coins)
  | undelegateCoinsFromModuleToAccount (senderModule : String) (recipientAddr : AccAddress)
      (amt : Coins)
  | mintCoins (moduleName : String) (amt : Coins)
  | burnCoins (moduleName : String) (amt : Coins)

/-- One keeper call. -/
def step (s : State) : Op → Option State
  | .sendCoins fromAddr toAddr amt =>
    (Bank.sendCoins toLower blockTime s.accounts fromAddr toAddr amt).map fun accounts => { s with accounts }
  | .inputOutputCoins inputs outputs =>
    (Bank.inputOutputCoins toLower blockTime s.accounts inputs outputs).map fun accounts => { s with accounts }
  | .delegateCoins delegatorAddr moduleAccAddr amt =>
    (Bank.delegateCoins toLower blockTime s.accounts delegatorAddr moduleAccAddr amt).map
      fun accounts => { s with accounts }
  | .undelegateCoins moduleAccAddr delegatorAddr amt =>
    (Bank.undelegateCoins toLower s.accounts moduleAccAddr delegatorAddr amt).map
      fun accounts => { s with accounts }
  | .sendCoinsFromModuleToAccount senderModule recipientAddr amt =>
    sendCoinsFromModuleToAccount toLower permAddrs blockTime s senderModule recipientAddr amt
  | .sendCoinsFromModuleToModule senderModule recipientModule amt =>
    sendCoinsFromModuleToModule toLower permAddrs blockTime s senderModule recipientModule amt
  | .sendCoinsFromAccountToModule senderAddr recipientModule amt =>
    sendCoinsFromAccountToModule toLower permAddrs blockTime s senderAddr recipientModule amt
  | .delegateCoinsFromAccountToModule senderAddr recipientModule amt =>
    delegateCoinsFromAccountToModule toLower permAddrs blockTime s senderAddr recipientModule amt
  | .undelegateCoinsFromModuleToAccount senderModule recipientAddr amt =>
    undelegateCoinsFromModuleToAccount toLower permAddrs s senderModule recipientAddr amt
  | .mintCoins moduleName amt => mintCoins toLower permAddrs s moduleName amt
  | .burnCoins moduleName amt => burnCoins toLower permAddrs blockTime s moduleName amt

/-- A run of transactions, each a list of keeper calls: a transaction whose call fails is
reverted whole, and the next one starts from the state before it. -/
def run (s : State) (txs : List (Int64 × List Op)) : State :=
  txs.foldl (fun s tx => (tx.2.foldlM (step toLower permAddrs tx.1) s).getD s) s

/-! ## What a call adds -/

/-- An undelegation whose delegator is the module account it takes the coins from. -/
def Op.isSelfUndelegation : Op → Bool
  | .undelegateCoins moduleAccAddr delegatorAddr _ => delegatorAddr == moduleAccAddr
  | .undelegateCoinsFromModuleToAccount senderModule recipientAddr _ =>
    getModuleAddress permAddrs senderModule == some recipientAddr
  | _ => false

/-- What a call adds to the supply at `d`. -/
def Op.supplyDelta : Op → String → Int
  | .mintCoins _ amt, d => Coins.balance amt d
  | .burnCoins _ amt, d => -Coins.balance amt d
  | _, _ => 0

/-- What a call adds to the accounts' total at `d`: the supply's change, and the amount of a
self-undelegation. -/
def Op.totalDelta (op : Op) (d : String) : Int :=
  match op with
  | .undelegateCoins _ _ amt | .undelegateCoinsFromModuleToAccount _ _ amt =>
    if op.isSelfUndelegation permAddrs then Coins.balance amt d else 0
  | _ => op.supplyDelta d

theorem totalDelta_eq_supplyDelta {op : Op} (h : op.isSelfUndelegation permAddrs = false) (d : String) :
    op.totalDelta permAddrs d = op.supplyDelta d := by
  cases op <;> simp_all [Op.totalDelta, Op.supplyDelta]

/-! ## The invariant -/

/-- Every account's coins and the supply are sorted by denom. -/
structure State.WellFormed (s : State) : Prop where
  accounts : SortedCoins s.accounts
  supply : Sorted CoinOf.denom s.supply

/-- The supply invariant (`TotalSupply`): at every denom the accounts hold the supply. -/
structure Conserved (s : State) : Prop extends s.WellFormed where
  total_eq : ∀ d, total s.accounts d = Coins.balance s.supply d

/-! ## One lemma per keeper call -/

section Spec

variable {toLower permAddrs blockTime} {s s' : State}

/-- A call that moves the accounts' total by `δ` and the supply by `σ`, keeping coins sorted. -/
structure Moves (s s' : State) (δ σ : String → Int) : Prop where
  wellFormed : s'.WellFormed
  total_eq : ∀ d, total s'.accounts d = total s.accounts d + δ d
  supply_eq : ∀ d, Coins.balance s'.supply d = Coins.balance s.supply d + σ d

theorem Moves.of_eq {δ σ δ' σ' : String → Int} (hm : Moves s s' δ σ) (hδ : ∀ d, δ d = δ' d)
    (hσ : ∀ d, σ d = σ' d) : Moves s s' δ' σ' :=
  ⟨hm.wellFormed, fun d => hδ d ▸ hm.total_eq d, fun d => hσ d ▸ hm.supply_eq d⟩

/-- Two calls in a row move the total and the supply by the sums of what each moves them by. -/
theorem Moves.trans {s'' : State} {δ σ δ' σ' : String → Int} (hm : Moves s s' δ σ)
    (hm' : Moves s' s'' δ' σ') : Moves s s'' (fun d => δ d + δ' d) fun d => σ d + σ' d :=
  ⟨hm'.wellFormed, fun d => by rw [hm'.total_eq, hm.total_eq, add_assoc],
    fun d => by rw [hm'.supply_eq, hm.supply_eq, add_assoc]⟩

/-- A call on the account store alone keeps the supply. -/
theorem moves_of_accounts {accs' : Accounts} {δ : String → Int} (hs : s.WellFormed)
    (hf : SortedCoins accs' ∧ ∀ d, total accs' d = total s.accounts d + δ d) :
    Moves s { s with accounts := accs' } δ fun _ => 0 :=
  ⟨⟨hf.1, hs.supply⟩, hf.2, fun _ => (add_zero _).symm⟩

theorem moves_of_transfer {accs' : Accounts} (hs : s.WellFormed)
    (hf : SortedCoins accs' ∧ ∀ d, total accs' d = total s.accounts d) :
    Moves s { s with accounts := accs' } (fun _ => 0) fun _ => 0 :=
  moves_of_accounts hs ⟨hf.1, fun d => by rw [hf.2 d, add_zero]⟩

/-- `GetModuleAccount` may write a new module account, but with no coins. -/
theorem getModuleAccount_spec {accs accs' : Accounts} {moduleName : String} {addr : AccAddress}
    {acc : Account} (hs : SortedCoins accs)
    (h : getModuleAccount permAddrs accs moduleName = some (accs', addr, acc)) :
    SortedCoins accs' ∧ (∀ d, total accs' d = total accs d) ∧
      getModuleAddress permAddrs moduleName = some addr := by
  unfold getModuleAccount at h
  split at h
  · cases h
  · rename_i permAddr hp
    have haddr : getModuleAddress permAddrs moduleName = some permAddr.address := by
      simp [getModuleAddress, hp]
    split at h
    · split_ifs at h
      cases h
      exact ⟨hs, fun _ => rfl, haddr⟩
    · rename_i hl
      cases h
      -- the new module account holds nothing, where nothing was held before
      have hnone : getCoins accs permAddr.address = [] := by simp [getCoins, hl]
      refine ⟨hs.insert _ List.Pairwise.nil, fun d => ?_, haddr⟩
      rw [total_insert, hnone, Coins.balance_nil]
      ring

/-- A call on the account store after `GetModuleAccount`. -/
theorem moves_of_moduleAccount {accs accs' : Accounts} {moduleName : String} {addr : AccAddress}
    {acc : Account} {δ : String → Int} (hs : s.WellFormed)
    (hget : getModuleAccount permAddrs s.accounts moduleName = some (accs, addr, acc))
    (hf : SortedCoins accs → SortedCoins accs' ∧ ∀ d, total accs' d = total accs d + δ d) :
    Moves s { s with accounts := accs' } δ fun _ => 0 := by
  obtain ⟨hs₁, ht₁, -⟩ := getModuleAccount_spec hs.accounts hget
  obtain ⟨hs', ht'⟩ := hf hs₁
  exact moves_of_accounts hs ⟨hs', fun d => by rw [ht', ht₁]⟩

theorem sendCoinsFromModuleToAccount_moves {senderModule : String} {recipientAddr : AccAddress}
    {amt : Coins} (hs : s.WellFormed)
    (h : sendCoinsFromModuleToAccount toLower permAddrs blockTime s senderModule recipientAddr amt = some s') :
    Moves s s' (fun _ => 0) fun _ => 0 := by
  obtain ⟨senderAddr, -, h⟩ := Option.bind_eq_some_iff.1 h
  obtain ⟨accs', hsend, rfl⟩ := Option.map_eq_some_iff.1 h
  exact moves_of_transfer hs (sendCoins_spec hs.accounts hsend)

theorem sendCoinsFromModuleToModule_moves {senderModule recipientModule : String} {amt : Coins}
    (hs : s.WellFormed)
    (h : sendCoinsFromModuleToModule toLower permAddrs blockTime s senderModule recipientModule amt = some s') :
    Moves s s' (fun _ => 0) fun _ => 0 := by
  obtain ⟨senderAddr, -, h⟩ := Option.bind_eq_some_iff.1 h
  obtain ⟨⟨accs, recipientAddr, _⟩, hget, h⟩ := Option.bind_eq_some_iff.1 h
  obtain ⟨accs', hsend, rfl⟩ := Option.map_eq_some_iff.1 h
  exact moves_of_moduleAccount hs hget fun hs₁ =>
    ⟨(sendCoins_spec hs₁ hsend).1, fun d => by rw [(sendCoins_spec hs₁ hsend).2 d, add_zero]⟩

theorem sendCoinsFromAccountToModule_moves {senderAddr : AccAddress} {recipientModule : String}
    {amt : Coins} (hs : s.WellFormed)
    (h : sendCoinsFromAccountToModule toLower permAddrs blockTime s senderAddr recipientModule amt = some s') :
    Moves s s' (fun _ => 0) fun _ => 0 := by
  obtain ⟨⟨accs, recipientAddr, _⟩, hget, h⟩ := Option.bind_eq_some_iff.1 h
  obtain ⟨accs', hsend, rfl⟩ := Option.map_eq_some_iff.1 h
  exact moves_of_moduleAccount hs hget fun hs₁ =>
    ⟨(sendCoins_spec hs₁ hsend).1, fun d => by rw [(sendCoins_spec hs₁ hsend).2 d, add_zero]⟩

theorem delegateCoinsFromAccountToModule_moves {senderAddr : AccAddress} {recipientModule : String}
    {amt : Coins} (hs : s.WellFormed)
    (h : delegateCoinsFromAccountToModule toLower permAddrs blockTime s senderAddr recipientModule amt = some s') :
    Moves s s' (fun _ => 0) fun _ => 0 := by
  obtain ⟨⟨accs, recipientAddr, recipientAcc⟩, hget, h⟩ := Option.bind_eq_some_iff.1 h
  dsimp only at h
  split_ifs at h
  obtain ⟨accs', hdel, rfl⟩ := Option.map_eq_some_iff.1 h
  exact moves_of_moduleAccount hs hget fun hs₁ =>
    ⟨(delegateCoins_spec hs₁ hdel).1, fun d => by rw [(delegateCoins_spec hs₁ hdel).2 d, add_zero]⟩

/-- `UndelegateCoinsFromModuleToAccount` adds the amount to the total when the recipient is the
module's own address. -/
theorem undelegateCoinsFromModuleToAccount_moves {senderModule : String} {recipientAddr : AccAddress}
    {amt : Coins} (hs : s.WellFormed)
    (h : undelegateCoinsFromModuleToAccount toLower permAddrs s senderModule recipientAddr amt = some s') :
    Moves s s' (fun d => if getModuleAddress permAddrs senderModule = some recipientAddr then
      Coins.balance amt d else 0) fun _ => 0 := by
  obtain ⟨⟨accs, addr, acc⟩, hget, h⟩ := Option.bind_eq_some_iff.1 h
  dsimp only at h
  split_ifs at h
  obtain ⟨accs', hundel, rfl⟩ := Option.map_eq_some_iff.1 h
  have haddr := (getModuleAccount_spec hs.accounts hget).2.2
  refine moves_of_moduleAccount hs hget fun hs₁ => ⟨(undelegateCoins_spec hs₁ hundel).1, fun d => ?_⟩
  rw [(undelegateCoins_spec hs₁ hundel).2 d]
  simp only [haddr, Option.some_inj, @eq_comm _ addr]

theorem mintCoins_moves {moduleName : String} {amt : Coins} (hs : s.WellFormed)
    (h : mintCoins toLower permAddrs s moduleName amt = some s') :
    Moves s s' (fun d => Coins.balance amt d) fun d => Coins.balance amt d := by
  obtain ⟨⟨accs, addr, acc⟩, hget, h⟩ := Option.bind_eq_some_iff.1 h
  dsimp only at h
  split_ifs at h
  obtain ⟨accounts, hadd, h⟩ := Option.bind_eq_some_iff.1 h
  obtain ⟨supply, hsupply, rfl⟩ := Option.map_eq_some_iff.1 h
  obtain ⟨hs₁, ht₁, -⟩ := getModuleAccount_spec hs.accounts hget
  obtain ⟨hs', ht'⟩ := addCoins_spec hs₁ hadd
  have ha := Coins.sorted_of_isValid (isValid_of_addCoins hadd)
  exact ⟨⟨hs', Coins.sorted_add hs.supply ha hsupply⟩, fun d => by rw [ht', ht₁],
    Coins.balance_add hs.supply ha hsupply⟩

theorem burnCoins_moves {moduleName : String} {amt : Coins} (hs : s.WellFormed)
    (h : burnCoins toLower permAddrs blockTime s moduleName amt = some s') :
    Moves s s' (fun d => -Coins.balance amt d) fun d => -Coins.balance amt d := by
  obtain ⟨⟨accs, addr, acc⟩, hget, h⟩ := Option.bind_eq_some_iff.1 h
  dsimp only at h
  split_ifs at h
  obtain ⟨accounts, hsub, h⟩ := Option.bind_eq_some_iff.1 h
  obtain ⟨supply, hsupply, rfl⟩ := Option.map_eq_some_iff.1 h
  obtain ⟨hs₁, ht₁, -⟩ := getModuleAccount_spec hs.accounts hget
  obtain ⟨hs', ht'⟩ := subtractCoins_spec hs₁ hsub
  have ha := Coins.sorted_of_isValid (isValid_of_subtractCoins hsub)
  exact ⟨⟨hs', Coins.sorted_sub hs.supply ha hsupply⟩, fun d => by rw [ht', ht₁, sub_eq_add_neg],
    fun d => by rw [Coins.balance_sub hs.supply ha hsupply, sub_eq_add_neg]⟩

/-! ## Balances at one address -/

/-- `GetModuleAccount` leaves every balance as it was. -/
theorem getCoins_getModuleAccount {accs accs' : Accounts} {moduleName : String} {addr : AccAddress}
    {acc : Account} (h : getModuleAccount permAddrs accs moduleName = some (accs', addr, acc))
    (a : AccAddress) : getCoins accs' a = getCoins accs a := by
  unfold getModuleAccount at h
  split at h
  · cases h
  · rename_i permAddr _
    split at h
    · split_ifs at h
      cases h
      rfl
    · rename_i hl
      cases h
      rw [getCoins_insert]
      by_cases ha : a = permAddr.address
      · subst ha
        simp [getCoins, hl]
      · rw [if_neg ha]

theorem balance_sendCoinsFromAccountToModule {senderAddr moduleAddr : AccAddress}
    {recipientModule : String} {amt : Coins} (hs : s.WellFormed)
    (hm : getModuleAddress permAddrs recipientModule = some moduleAddr)
    (h : sendCoinsFromAccountToModule toLower permAddrs blockTime s senderAddr recipientModule amt = some s')
    (a : AccAddress) (d : String) :
    Coins.balance (getCoins s'.accounts a) d = Coins.balance (getCoins s.accounts a) d -
      (if a = senderAddr then Coins.balance amt d else 0) +
        if a = moduleAddr then Coins.balance amt d else 0 := by
  obtain ⟨⟨accs, recipientAddr, _⟩, hget, h⟩ := Option.bind_eq_some_iff.1 h
  obtain ⟨accs', hsend, rfl⟩ := Option.map_eq_some_iff.1 h
  obtain ⟨hs₁, -, haddr⟩ := getModuleAccount_spec hs.accounts hget
  rw [hm, Option.some_inj] at haddr
  subst haddr
  rw [balance_sendCoins hs₁ hsend, getCoins_getModuleAccount hget]

theorem isValid_of_sendCoinsFromAccountToModule {senderAddr : AccAddress} {recipientModule : String}
    {amt : Coins}
    (h : sendCoinsFromAccountToModule toLower permAddrs blockTime s senderAddr recipientModule amt = some s') :
    Coins.isValid toLower amt = true := by
  obtain ⟨⟨accs, recipientAddr, _⟩, -, h⟩ := Option.bind_eq_some_iff.1 h
  obtain ⟨accs', hsend, -⟩ := Option.map_eq_some_iff.1 h
  exact isValid_of_sendCoins hsend

theorem balance_sendCoinsFromModuleToAccount {recipientAddr moduleAddr : AccAddress}
    {senderModule : String} {amt : Coins} (hs : s.WellFormed)
    (hm : getModuleAddress permAddrs senderModule = some moduleAddr)
    (h : sendCoinsFromModuleToAccount toLower permAddrs blockTime s senderModule recipientAddr amt = some s')
    (a : AccAddress) (d : String) :
    Coins.balance (getCoins s'.accounts a) d = Coins.balance (getCoins s.accounts a) d -
      (if a = moduleAddr then Coins.balance amt d else 0) +
        if a = recipientAddr then Coins.balance amt d else 0 := by
  obtain ⟨senderAddr, hsender, h⟩ := Option.bind_eq_some_iff.1 h
  obtain ⟨accs', hsend, rfl⟩ := Option.map_eq_some_iff.1 h
  rw [hm, Option.some_inj] at hsender
  subst hsender
  exact balance_sendCoins hs.accounts hsend a d

/-- `UndelegateCoinsFromModuleToAccount` moves the amount from the module account to the recipient,
who is credited from its balance before the debit. -/
theorem balance_undelegateCoinsFromModuleToAccount {recipientAddr moduleAddr : AccAddress}
    {senderModule : String} {amt : Coins} (hs : s.WellFormed)
    (hm : getModuleAddress permAddrs senderModule = some moduleAddr)
    (h : undelegateCoinsFromModuleToAccount toLower permAddrs s senderModule recipientAddr amt = some s')
    (a : AccAddress) (d : String) :
    Coins.balance (getCoins s'.accounts a) d = Coins.balance (getCoins s.accounts a) d -
      (if a = moduleAddr ∧ a ≠ recipientAddr then Coins.balance amt d else 0) +
        if a = recipientAddr then Coins.balance amt d else 0 := by
  obtain ⟨⟨accs, addr, acc⟩, hget, h⟩ := Option.bind_eq_some_iff.1 h
  dsimp only at h
  split_ifs at h
  obtain ⟨accounts, hundel, rfl⟩ := Option.map_eq_some_iff.1 h
  obtain ⟨hs₁, -, haddr⟩ := getModuleAccount_spec hs.accounts hget
  rw [hm, Option.some_inj] at haddr
  subst haddr
  rw [balance_undelegateCoins hs₁ hundel a d, getCoins_getModuleAccount hget a]

theorem balance_burnCoins {moduleAddr : AccAddress} {moduleName : String} {amt : Coins}
    (hs : s.WellFormed) (hm : getModuleAddress permAddrs moduleName = some moduleAddr)
    (h : burnCoins toLower permAddrs blockTime s moduleName amt = some s') (a : AccAddress) (d : String) :
    Coins.balance (getCoins s'.accounts a) d =
      Coins.balance (getCoins s.accounts a) d - if a = moduleAddr then Coins.balance amt d else 0 := by
  obtain ⟨⟨accs, addr, acc⟩, hget, h⟩ := Option.bind_eq_some_iff.1 h
  dsimp only at h
  split_ifs at h
  obtain ⟨accounts, hsub, h⟩ := Option.bind_eq_some_iff.1 h
  obtain ⟨supply, -, rfl⟩ := Option.map_eq_some_iff.1 h
  obtain ⟨hs₁, -, haddr⟩ := getModuleAccount_spec hs.accounts hget
  rw [hm, Option.some_inj] at haddr
  subst haddr
  rw [balance_subtractCoins hs₁ hsub, getCoins_getModuleAccount hget]

/-- One call moves the total by `totalDelta` and the supply by `supplyDelta`. -/
theorem step_moves {op : Op} (hs : s.WellFormed) (h : step toLower permAddrs blockTime s op = some s') :
    Moves s s' (op.totalDelta permAddrs) op.supplyDelta := by
  cases op with
  | sendCoins fromAddr toAddr amt =>
    obtain ⟨accs', hf, rfl⟩ := Option.map_eq_some_iff.1 h
    exact moves_of_transfer hs (sendCoins_spec hs.accounts hf)
  | inputOutputCoins inputs outputs =>
    obtain ⟨accs', hf, rfl⟩ := Option.map_eq_some_iff.1 h
    exact moves_of_transfer hs (inputOutputCoins_spec hs.accounts hf)
  | delegateCoins delegatorAddr moduleAccAddr amt =>
    obtain ⟨accs', hf, rfl⟩ := Option.map_eq_some_iff.1 h
    exact moves_of_transfer hs (delegateCoins_spec hs.accounts hf)
  | undelegateCoins moduleAccAddr delegatorAddr amt =>
    obtain ⟨accs', hf, rfl⟩ := Option.map_eq_some_iff.1 h
    obtain ⟨hs', ht'⟩ := undelegateCoins_spec hs.accounts hf
    exact moves_of_accounts hs ⟨hs', fun d => by simp [ht' d, Op.totalDelta, Op.isSelfUndelegation]⟩
  | sendCoinsFromModuleToAccount => exact sendCoinsFromModuleToAccount_moves hs h
  | sendCoinsFromModuleToModule => exact sendCoinsFromModuleToModule_moves hs h
  | sendCoinsFromAccountToModule => exact sendCoinsFromAccountToModule_moves hs h
  | delegateCoinsFromAccountToModule => exact delegateCoinsFromAccountToModule_moves hs h
  | undelegateCoinsFromModuleToAccount senderModule recipientAddr amt =>
    exact (undelegateCoinsFromModuleToAccount_moves hs h).of_eq
      (fun d => by simp [Op.totalDelta, Op.isSelfUndelegation]) fun _ => rfl
  | mintCoins => exact mintCoins_moves hs h
  | burnCoins => exact burnCoins_moves hs h

/-! ## Calls that return

With the module accounts stored, valid amounts and room below `2 ^ 255`, `MintCoins` and
`SendCoinsFromModuleToModule` return, and say what they write. -/

/-- An account with a permission is a module account. -/
theorem permissions_isSome_of_hasPermission {acc : Account} {permission : String}
    (h : hasPermission acc permission = true) : acc.permissions.isSome = true := by
  cases hperm : acc.permissions with
  | none => simp [hasPermission, hperm] at h
  | some _ => rfl

theorem getModuleAccount_of_lookup {accs : Accounts} {moduleName : String}
    {pa : PermissionsForAddress} {acc : Account} (hp : permAddrs moduleName = some pa)
    (hl : accs.lookup pa.address = some acc) (hm : acc.permissions.isSome = true) :
    getModuleAccount permAddrs accs moduleName = some (accs, pa.address, acc) := by
  rw [getModuleAccount, hp]
  simp only [hl, hm, if_true]

/-- `MintCoins` returns when the module account is stored with the minter permission and neither
its balance nor the supply reaches `2 ^ 255`. -/
theorem mintCoins_succeeds {moduleName : String} {pa : PermissionsForAddress} {acc : Account}
    {amt : Coins} (hlow : ∀ d, DenomValid d → toLower d = d) (hp : permAddrs moduleName = some pa)
    (hl : s.accounts.lookup pa.address = some acc) (hm : hasPermission acc minter = true)
    (hv : CoinSet.Valid toLower SdkInt.i acc.coins) (hamt : CoinSet.Valid toLower SdkInt.i amt)
    (hroom : ∀ d, Coins.balance acc.coins d + Coins.balance amt d < 2 ^ maxBitLen)
    (hs : CoinSet.NonNeg SdkInt.i s.supply)
    (hroomS : ∀ d, Coins.balance s.supply d + Coins.balance amt d < 2 ^ maxBitLen) :
    ∃ c supply, mintCoins toLower permAddrs s moduleName amt =
        some ⟨s.accounts.insert pa.address { acc with coins := c }, supply⟩ ∧
      CoinSet.Valid toLower SdkInt.i c ∧
      (∀ d, Coins.balance c d = Coins.balance acc.coins d + Coins.balance amt d) ∧
      ∀ d, Coins.balance supply d = Coins.balance s.supply d + Coins.balance amt d := by
  have L := SdkInt.amountOps_lawful
  have hsome := permissions_isSome_of_hasPermission hm
  have hget := getCoins_of_lookup hl
  obtain ⟨c, hadd, hcv, hbal⟩ := addCoins_succeeds hlow (hget ▸ hv) hamt (hget ▸ hroom)
  obtain ⟨supply, hsup, -, hbalS⟩ := CoinSet.safeAdd_spec L hs.sorted hamt.sorted fun d =>
    CoinSet.natAbs_add_lt (CoinSet.balance_nonneg hs.nonneg d)
      (CoinSet.balance_nonneg hamt.nonNeg.nonneg d) (hroomS d)
  refine ⟨c, supply, ?_, hcv, hget ▸ hbal, hbalS⟩
  rw [mintCoins, getModuleAccount_of_lookup hp hl hsome, Option.bind_some]
  simp only [hm, if_true, hadd, hl, Option.getD_some, Option.bind_some]
  rw [show Coins.add s.supply amt = some supply from hsup, Option.map_some]

/-- `SendCoinsFromModuleToModule` between registered modules whose recipient account is stored is
`SendCoins` between their addresses. -/
theorem sendCoinsFromModuleToModule_eq {senderModule recipientModule : String}
    {ps pr : PermissionsForAddress} {accR : Account} {amt : Coins}
    (hps : permAddrs senderModule = some ps) (hpr : permAddrs recipientModule = some pr)
    (hlr : s.accounts.lookup pr.address = some accR) (hmr : accR.permissions.isSome = true) :
    sendCoinsFromModuleToModule toLower permAddrs blockTime s senderModule recipientModule amt =
      (sendCoins toLower blockTime s.accounts ps.address pr.address amt).map
        fun accounts => { s with accounts } := by
  have hsa : getModuleAddress permAddrs senderModule = some ps.address := by
    rw [getModuleAddress, hps, Option.map_some]
  rw [sendCoinsFromModuleToModule, hsa, Option.bind_some, getModuleAccount_of_lookup hpr hlr hmr,
    Option.bind_some]

/-- `SendCoinsFromModuleToModule` between two stored module accounts returns when the sender
holds the amount and the recipient's balance stays below `2 ^ 255`. -/
theorem sendCoinsFromModuleToModule_succeeds {senderModule recipientModule : String}
    {ps pr : PermissionsForAddress} {accS accR : Account} {amt : Coins}
    (hlow : ∀ d, DenomValid d → toLower d = d) (hps : permAddrs senderModule = some ps)
    (hpr : permAddrs recipientModule = some pr) (hne : ps.address ≠ pr.address)
    (hls : s.accounts.lookup ps.address = some accS) (hlr : s.accounts.lookup pr.address = some accR)
    (hms : accS.permissions.isSome = true) (hmr : accR.permissions.isSome = true)
    (hvs : CoinSet.Valid toLower SdkInt.i accS.coins) (hds : ∀ x ∈ accS.coins, DenomValid x.denom)
    (hvr : CoinSet.Valid toLower SdkInt.i accR.coins) (hamt : CoinSet.Valid toLower SdkInt.i amt)
    (hle : ∀ d, Coins.balance amt d ≤ Coins.balance accS.coins d)
    (hroom : ∀ d, Coins.balance accR.coins d + Coins.balance amt d < 2 ^ maxBitLen) :
    ∃ c₁ c₂, sendCoinsFromModuleToModule toLower permAddrs blockTime s senderModule recipientModule amt =
        some ⟨(s.accounts.insert ps.address { accS with coins := c₁ }).insert pr.address
          { accR with coins := c₂ }, s.supply⟩ ∧
      CoinSet.Valid toLower SdkInt.i c₁ ∧ CoinSet.Valid toLower SdkInt.i c₂ ∧
      (∀ d, Coins.balance c₁ d = Coins.balance accS.coins d - Coins.balance amt d) ∧
      ∀ d, Coins.balance c₂ d = Coins.balance accR.coins d + Coins.balance amt d := by
  have hgs := getCoins_of_lookup hls
  have hgr := getCoins_of_lookup hlr
  -- a module account can spend all its coins
  have hsp : getSpendableCoins blockTime s.accounts ps.address = some (getCoins s.accounts ps.address) :=
    getSpendableCoins_of_permissions hls hms
  obtain ⟨c₁, c₂, hsend, hv₁, hv₂, hb₁, hb₂⟩ := sendCoins_succeeds hne hlow hsp (hgs ▸ hvs)
    (hgs ▸ hds) (hgr ▸ hvr) hamt (hgs ▸ hle) (hgr ▸ hroom)
  refine ⟨c₁, c₂, ?_, hv₁, hv₂, hgs ▸ hb₁, hgr ▸ hb₂⟩
  rw [sendCoinsFromModuleToModule_eq hps hpr hlr hmr]
  simp only [hsend, hls, hlr, Option.getD_some, Option.map_some]

/-! ## Module accounts stay

`GetModuleAccount` creates a module account where there is none, and the bank keeper changes no
account's kind (`Bank.Keeps`): once stored, a module account stays one. -/

/-- `GetModuleAccount` returns a stored module account, and keeps every account. -/
theorem getModuleAccount_keeps {accs accs' : Accounts} {moduleName : String} {addr : AccAddress}
    {acc : Account} (h : getModuleAccount permAddrs accs moduleName = some (accs', addr, acc)) :
    Keeps accs accs' ∧ accs'.lookup addr = some acc ∧ acc.permissions.isSome = true := by
  unfold getModuleAccount at h
  split at h
  · cases h
  · rename_i permAddr _
    split at h
    · rename_i hl
      split_ifs at h with hm
      cases h
      exact ⟨Keeps.refl _, hl, hm⟩
    · rename_i hl
      cases h
      -- the new module account is written where no account was
      have hk : Keeps accs (accs.insert permAddr.address ⟨[], .module permAddr.permissions⟩) :=
        keeps_insert fun old h' => by
          rw [hl] at h'
          cases h'
      exact ⟨hk, AList.lookup_insert _, rfl⟩

theorem sendCoinsFromAccountToModule_keeps {senderAddr : AccAddress} {recipientModule : String}
    {amt : Coins}
    (h : sendCoinsFromAccountToModule toLower permAddrs blockTime s senderAddr recipientModule amt = some s') :
    Keeps s.accounts s'.accounts := by
  obtain ⟨⟨accs, recipientAddr, _⟩, hget, h⟩ := Option.bind_eq_some_iff.1 h
  obtain ⟨accs', hsend, rfl⟩ := Option.map_eq_some_iff.1 h
  exact (getModuleAccount_keeps hget).1.trans (sendCoins_keeps hsend)

theorem sendCoinsFromModuleToAccount_keeps {senderModule : String} {recipientAddr : AccAddress}
    {amt : Coins}
    (h : sendCoinsFromModuleToAccount toLower permAddrs blockTime s senderModule recipientAddr amt = some s') :
    Keeps s.accounts s'.accounts := by
  obtain ⟨senderAddr, -, h⟩ := Option.bind_eq_some_iff.1 h
  obtain ⟨accs', hsend, rfl⟩ := Option.map_eq_some_iff.1 h
  exact sendCoins_keeps hsend

theorem burnCoins_keeps {moduleName : String} {amt : Coins}
    (h : burnCoins toLower permAddrs blockTime s moduleName amt = some s') :
    Keeps s.accounts s'.accounts := by
  obtain ⟨⟨accs, addr, acc⟩, hget, h⟩ := Option.bind_eq_some_iff.1 h
  dsimp only at h
  split_ifs at h
  obtain ⟨accounts, hsub, h⟩ := Option.bind_eq_some_iff.1 h
  obtain ⟨supply, -, rfl⟩ := Option.map_eq_some_iff.1 h
  exact (getModuleAccount_keeps hget).1.trans (subtractCoins_keeps hsub)

theorem sendCoinsFromModuleToModule_keeps {senderModule recipientModule : String} {amt : Coins}
    (h : sendCoinsFromModuleToModule toLower permAddrs blockTime s senderModule recipientModule amt =
      some s') :
    Keeps s.accounts s'.accounts := by
  obtain ⟨senderAddr, -, h⟩ := Option.bind_eq_some_iff.1 h
  obtain ⟨⟨accs, recipientAddr, _⟩, hget, h⟩ := Option.bind_eq_some_iff.1 h
  obtain ⟨accs', hsend, rfl⟩ := Option.map_eq_some_iff.1 h
  exact (getModuleAccount_keeps hget).1.trans (sendCoins_keeps hsend)

theorem delegateCoinsFromAccountToModule_keeps {senderAddr : AccAddress} {recipientModule : String}
    {amt : Coins}
    (h : delegateCoinsFromAccountToModule toLower permAddrs blockTime s senderAddr recipientModule amt =
      some s') :
    Keeps s.accounts s'.accounts := by
  obtain ⟨⟨accs, recipientAddr, recipientAcc⟩, hget, h⟩ := Option.bind_eq_some_iff.1 h
  dsimp only at h
  split_ifs at h
  obtain ⟨accs', hdel, rfl⟩ := Option.map_eq_some_iff.1 h
  exact (getModuleAccount_keeps hget).1.trans (delegateCoins_keeps hdel)

theorem undelegateCoinsFromModuleToAccount_keeps {senderModule : String} {recipientAddr : AccAddress}
    {amt : Coins}
    (h : undelegateCoinsFromModuleToAccount toLower permAddrs s senderModule recipientAddr amt =
      some s') :
    Keeps s.accounts s'.accounts := by
  obtain ⟨⟨accs, addr, acc⟩, hget, h⟩ := Option.bind_eq_some_iff.1 h
  dsimp only at h
  split_ifs at h
  obtain ⟨accs', hundel, rfl⟩ := Option.map_eq_some_iff.1 h
  exact (getModuleAccount_keeps hget).1.trans (undelegateCoins_keeps hundel)

theorem mintCoins_keeps {moduleName : String} {amt : Coins}
    (h : mintCoins toLower permAddrs s moduleName amt = some s') : Keeps s.accounts s'.accounts := by
  obtain ⟨⟨accs, addr, acc⟩, hget, h⟩ := Option.bind_eq_some_iff.1 h
  dsimp only at h
  split_ifs at h
  obtain ⟨accounts, hadd, h⟩ := Option.bind_eq_some_iff.1 h
  obtain ⟨supply, -, rfl⟩ := Option.map_eq_some_iff.1 h
  exact (getModuleAccount_keeps hget).1.trans (addCoins_keeps hadd)

/-- No keeper call changes the kind of a stored account. -/
theorem step_keeps {op : Op} (h : step toLower permAddrs blockTime s op = some s') :
    Keeps s.accounts s'.accounts := by
  cases op with
  | sendCoins fromAddr toAddr amt =>
    obtain ⟨accs', hf, rfl⟩ := Option.map_eq_some_iff.1 h
    exact sendCoins_keeps hf
  | inputOutputCoins inputs outputs =>
    obtain ⟨accs', hf, rfl⟩ := Option.map_eq_some_iff.1 h
    exact inputOutputCoins_keeps hf
  | delegateCoins delegatorAddr moduleAccAddr amt =>
    obtain ⟨accs', hf, rfl⟩ := Option.map_eq_some_iff.1 h
    exact delegateCoins_keeps hf
  | undelegateCoins moduleAccAddr delegatorAddr amt =>
    obtain ⟨accs', hf, rfl⟩ := Option.map_eq_some_iff.1 h
    exact undelegateCoins_keeps hf
  | sendCoinsFromModuleToAccount => exact sendCoinsFromModuleToAccount_keeps h
  | sendCoinsFromModuleToModule => exact sendCoinsFromModuleToModule_keeps h
  | sendCoinsFromAccountToModule => exact sendCoinsFromAccountToModule_keeps h
  | delegateCoinsFromAccountToModule => exact delegateCoinsFromAccountToModule_keeps h
  | undelegateCoinsFromModuleToAccount => exact undelegateCoinsFromModuleToAccount_keeps h
  | mintCoins => exact mintCoins_keeps h
  | burnCoins => exact burnCoins_keeps h

end Spec

/-! ## Runs -/

section Run

variable {toLower permAddrs blockTime}

theorem foldlM_step_wellFormed {tx : List Op} {s s' : State} (hs : s.WellFormed)
    (h : tx.foldlM (step toLower permAddrs blockTime) s = some s') : s'.WellFormed :=
  Ledger.foldlM_inv State.WellFormed _ (fun _ _ _ hs h => (step_moves hs h).wellFormed) tx s s' hs h

/-- A transaction moves the accounts' total less the supply by what its calls self-undelegate. -/
theorem foldlM_step_moves {tx : List Op} {s s' : State} (hs : s.WellFormed)
    (h : tx.foldlM (step toLower permAddrs blockTime) s = some s') (d : String) :
    total s'.accounts d - Coins.balance s'.supply d = total s.accounts d - Coins.balance s.supply d +
      (tx.map fun op => op.totalDelta permAddrs d - op.supplyDelta d).sum :=
  (Ledger.foldlM_spec State.WellFormed (fun s => total s.accounts d - Coins.balance s.supply d)
    (fun op => op.totalDelta permAddrs d - op.supplyDelta d) _
    (fun _ _ _ hs h => ⟨(step_moves hs h).wellFormed, by
      rw [(step_moves hs h).total_eq d, (step_moves hs h).supply_eq d]
      ring⟩) tx s s' hs h).2

/-- A transaction without a self-undelegation keeps the supply invariant. -/
theorem Conserved.foldlM {tx : List Op} {s s' : State} (hc : Conserved s)
    (hno : ∀ op ∈ tx, op.isSelfUndelegation permAddrs = false)
    (h : tx.foldlM (step toLower permAddrs blockTime) s = some s') : Conserved s' := by
  -- every call moves the total and the supply alike
  have hzero : ∀ d, (tx.map fun op => op.totalDelta permAddrs d - op.supplyDelta d).sum = 0 := by
    intro d
    apply List.sum_eq_zero
    intro x hx
    obtain ⟨op, hop, rfl⟩ := List.mem_map.1 hx
    rw [totalDelta_eq_supplyDelta permAddrs (hno op hop), sub_self]
  refine ⟨foldlM_step_wellFormed hc.toWellFormed h, fun d => ?_⟩
  have hd := foldlM_step_moves hc.toWellFormed h d
  rw [hzero, add_zero, hc.total_eq d, sub_self] at hd
  exact sub_eq_zero.1 hd

/-- A run of transactions without a self-undelegation keeps the supply invariant; a reverted
transaction leaves the state as it was. -/
theorem Conserved.run : ∀ (txs : List (Int64 × List Op)) {s : State}, Conserved s →
    (∀ tx ∈ txs, ∀ op ∈ tx.2, op.isSelfUndelegation permAddrs = false) →
    Conserved (run toLower permAddrs s txs)
  | [], _, hc, _ => hc
  | tx :: txs, s, hc, hno => by
    have hc' : Conserved ((tx.2.foldlM (step toLower permAddrs tx.1) s).getD s) := by
      cases h : tx.2.foldlM (step toLower permAddrs tx.1) s with
      | none => exact hc
      | some s' => exact hc.foldlM (hno tx List.mem_cons_self) h
    exact Conserved.run txs hc' fun tx' htx' => hno tx' (List.mem_cons_of_mem _ htx')

/-- A run keeps the kind of every stored account; a reverted transaction writes nothing. -/
theorem run_keeps : ∀ (txs : List (Int64 × List Op)) (s : State),
    Keeps s.accounts (run toLower permAddrs s txs).accounts
  | [], s => Keeps.refl _
  | tx :: txs, s => by
    have h₁ : Keeps s.accounts ((tx.2.foldlM (step toLower permAddrs tx.1) s).getD s).accounts := by
      cases h : tx.2.foldlM (step toLower permAddrs tx.1) s with
      | none => exact Keeps.refl _
      | some s' =>
        exact Ledger.foldlM_inv (fun s' => Keeps s.accounts s'.accounts) _
          (fun _ _ _ hk h => hk.trans (step_keeps h)) tx.2 s s' (Keeps.refl _) h
    exact h₁.trans (run_keeps txs _)

/-- Supply conservation: a call moves the accounts' total by what it mints, less what it burns,
plus what a self-undelegation adds, and the supply by what it mints less what it burns; from a
state whose accounts hold the supply, every run without a self-undelegation ends in such a
state. -/
theorem supply_conserved (toLower : String → String) (permAddrs : String → Option PermissionsForAddress) :
    (∀ (blockTime : Int64) (s s' : State) (op : Op), s.WellFormed →
      step toLower permAddrs blockTime s op = some s' →
        Moves s s' (op.totalDelta permAddrs) op.supplyDelta) ∧
    ∀ (s : State) (txs : List (Int64 × List Op)), Conserved s →
      (∀ tx ∈ txs, ∀ op ∈ tx.2, op.isSelfUndelegation permAddrs = false) →
      Conserved (run toLower permAddrs s txs) :=
  ⟨fun _ _ _ _ hs h => step_moves hs h, fun _ txs hc hno => Conserved.run txs hc hno⟩

end Run

/-! ## A pool and its self-undelegation -/

/-- `n` units of `"stake"`. -/
def stake (n : Nat) : Coins := [⟨"stake", SdkInt.literal n⟩]

/-- Two modules: the staking module's bonded pool at `[1]`, and the mint module at `[2]`. -/
def poolPerms (moduleName : String) : Option PermissionsForAddress :=
  if moduleName = "bonded_tokens_pool" then some ⟨[1], [staking]⟩
  else if moduleName = "mint" then some ⟨[2], [minter]⟩
  else none

/-- The bonded pool holds all 10 units of the supply. -/
def poolState : State :=
  ⟨(∅ : Accounts).insert [1] ⟨stake 10, .module [staking]⟩, stake 10⟩

theorem poolState_conserved : Conserved poolState where
  accounts := SortedCoins.insert (fun _ _ h => by cases h) _ (List.pairwise_singleton _ _)
  supply := List.pairwise_singleton _ _
  total_eq d := by
    rw [poolState, total_insert]
    simp [getCoins, total, Ledger.total]

theorem supply_conserved_mint :
    poolState.WellFormed ∧
      (∃ s', step id poolPerms 0 poolState (.mintCoins "mint" (stake 5)) = some s' ∧
        Moves poolState s' ((Op.mintCoins "mint" (stake 5)).totalDelta poolPerms)
          (Op.mintCoins "mint" (stake 5)).supplyDelta) ∧
      Conserved poolState ∧
      Conserved (run id poolPerms poolState [(0, [.mintCoins "mint" (stake 5)])]) := by
  obtain ⟨s', hs'⟩ := Option.isSome_iff_exists.1
    (show (step id poolPerms 0 poolState (.mintCoins "mint" (stake 5))).isSome = true by decide)
  exact ⟨poolState_conserved.toWellFormed,
    ⟨s', hs', (supply_conserved id poolPerms).1 _ _ _ _ poolState_conserved.toWellFormed hs'⟩,
    poolState_conserved,
    (supply_conserved id poolPerms).2 _ _ poolState_conserved (by decide)⟩

/-- The bonded pool undelegates 5 units to its own address: `UndelegateCoins` debits the pool
account to 5, then writes back the account it read before the debit with 5 added, so the
accounts hold 15 against a supply of 10. -/
theorem undelegate_self_breaks_supply :
    Conserved poolState ∧
      ¬Conserved (run id poolPerms poolState
        [(0, [.undelegateCoinsFromModuleToAccount "bonded_tokens_pool" [1] (stake 5)])]) := by
  refine ⟨poolState_conserved, fun hc => ?_⟩
  have h := hc.total_eq "stake"
  revert h
  decide

/-! ## Module accounts never sign -/

/-- A module account never signs: once stored it stays a module account, with its permissions,
through every run of bank and supply calls, and `SetPubKey` fails on it. -/
theorem moduleAccount_never_signs (toLower : String → String)
    (permAddrs : String → Option PermissionsForAddress) (s : State) (txs : List (Int64 × List Op))
    {addr : AccAddress} {acc : Account} (hl : s.accounts.lookup addr = some acc)
    (hm : acc.permissions.isSome = true) :
    ∃ acc', (run toLower permAddrs s txs).accounts.lookup addr = some acc' ∧
      acc'.permissions = acc.permissions ∧ canSign (run toLower permAddrs s txs).accounts addr = false := by
  obtain ⟨acc', hl', hp⟩ := run_keeps txs s addr acc hl
  refine ⟨acc', hl', hp, ?_⟩
  simp only [canSign, hl', hp]
  cases hq : acc.permissions with
  | none => simp [hq] at hm
  | some _ => rfl

theorem moduleAccount_never_signs_pool :
    poolState.accounts.lookup [1] = some ⟨stake 10, .module [staking]⟩ ∧
      (⟨stake 10, .module [staking]⟩ : Account).permissions.isSome = true ∧
      ∃ acc', (run id poolPerms poolState [(0, [.mintCoins "mint" (stake 5),
          .sendCoinsFromModuleToAccount "bonded_tokens_pool" [3] (stake 4)])]).accounts.lookup [1] =
          some acc' ∧ acc'.permissions = (⟨stake 10, .module [staking]⟩ : Account).permissions ∧
        canSign (run id poolPerms poolState [(0, [.mintCoins "mint" (stake 5),
          .sendCoinsFromModuleToAccount "bonded_tokens_pool" [3] (stake 4)])]).accounts [1] = false :=
  ⟨rfl, rfl, moduleAccount_never_signs id poolPerms poolState _ rfl rfl⟩

end Barkis.Supply
