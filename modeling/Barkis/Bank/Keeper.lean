import Barkis.Auth.Vesting
import Barkis.Lib.Ledger

/-!
# The bank keeper

`x/bank/internal/keeper/keeper.go`. The account store maps addresses to accounts, and the bank
keeper reads and writes their coins. An account is a base account, a module account with its
permissions, or a vesting account of `x/auth/types/account.go` (`Barkis.Auth.Vesting`): a
vesting account can give up only its `SpendableCoins` at the block time, and its delegations and
undelegations are tracked by `TrackDelegation` and `TrackUndelegation`. A keeper call that
returns an error or panics is `none`: the transaction that made it is not written
(`runTx_of_reach_ante`), so the store stays as it was.

* `total`: the sum of all accounts' balances at a denom, the left side of the supply invariant.
* `subtractCoins_spec`, `addCoins_spec`: a debit and a credit move the total by the amount;
  `sendCoins_spec`, `inputOutputCoins_spec` and `delegateCoins_spec` leave it as it was, whatever
  the kinds of the accounts.
* `undelegateCoins_spec`: `UndelegateCoins` reads the delegator's account before it writes the
  module account's, so when the two addresses are one the account ends with the amount added and
  nothing taken.
* `Keeps`: every call keeps the kind of every account, so a module account stays one.
-/

namespace Barkis.Bank

open SortedMerge

/-- `sdk.AccAddress`. -/
abbrev AccAddress := List UInt8

/-- What a vesting account holds beside its coins: `BaseVestingAccount`'s original vesting,
delegated free and delegated vesting coins and end time, and the schedule of its kind. -/
structure Vesting where
  originalVesting : Coins
  delegatedFree : Coins
  delegatedVesting : Coins
  endTime : Int64
  schedule : Auth.Schedule

/-- The kinds of account the bank keeper meets: `BaseAccount`, `ModuleAccount` with its
permissions, and the vesting accounts. -/
inductive AccountKind where
  | base
  | module (permissions : List String)
  | vesting (v : Vesting)

/-- An account: its coins and its kind. -/
structure Account where
  coins : Coins
  kind : AccountKind

/-- The permissions of a module account, `none` for the others. -/
def Account.permissions (acc : Account) : Option (List String) :=
  match acc.kind with
  | .module permissions => some permissions
  | _ => none

/-- The vesting account with these coins. -/
def Vesting.withCoins (v : Vesting) (coins : Coins) : Auth.VestingAccount :=
  ⟨coins, v.originalVesting, v.delegatedFree, v.delegatedVesting, v.endTime, v.schedule⟩

/-- What a vesting account holds beside its coins. -/
def Vesting.ofVestingAccount (va : Auth.VestingAccount) : Vesting :=
  ⟨va.originalVesting, va.delegatedFree, va.delegatedVesting, va.endTime, va.schedule⟩

/-- The account store. -/
abbrev Accounts := AList fun _ : AccAddress => Account

/-- `Time.Unix()` of a block time given in nanoseconds: the Unix seconds that vesting schedules
are in. -/
def unixSeconds (nanos : Nat) : Int64 := Int64.ofNat (nanos / 1000000000)

variable (toLower : String → String) (blockTime : Int64)

/-- `SpendableCoins` at the block time: a vesting account's coins less what still vests and is
not delegated, all the coins of any other account. -/
def Account.spendableCoins (acc : Account) : Option Coins :=
  match acc.kind with
  | .vesting v => (v.withCoins acc.coins).spendableCoins blockTime
  | _ => some acc.coins

/-- `GetCoins`: the coins of the account at `addr`, none without an account. -/
def getCoins (accs : Accounts) (addr : AccAddress) : Coins :=
  match accs.lookup addr with
  | some acc => acc.coins
  | none => []

/-- The coins `SubtractCoins` may take from `addr` at the block time, none without an account. -/
def getSpendableCoins (accs : Accounts) (addr : AccAddress) : Option Coins :=
  match accs.lookup addr with
  | some acc => acc.spendableCoins blockTime
  | none => some []

/-- `GetSignerAcc` and `processSig` of the ante handler: a signer's account must exist, and
`ModuleAccount.SetPubKey` always errors, so a module account never signs a transaction. -/
def canSign (accs : Accounts) (addr : AccAddress) : Bool :=
  match accs.lookup addr with
  | some acc => acc.permissions.isNone
  | none => false

/-- `SetCoins`: valid coins are stored, in a new base account where there is none. -/
def setCoins (accs : Accounts) (addr : AccAddress) (amt : Coins) : Option Accounts :=
  if Coins.isValid toLower amt then
    some (accs.insert addr { (accs.lookup addr).getD ⟨[], .base⟩ with coins := amt })
  else none

/-- `SubtractCoins`: the amount must be spendable at the block time; the account's coins less the
amount are stored. -/
def subtractCoins (accs : Accounts) (addr : AccAddress) (amt : Coins) : Option Accounts :=
  if Coins.isValid toLower amt then
    (getSpendableCoins blockTime accs addr).bind fun spendableCoins =>
      match Coins.safeSub spendableCoins amt with
      | some (_, false) => (Coins.sub (getCoins accs addr) amt).bind (setCoins toLower accs addr)
      | _ => none
  else none

/-- `AddCoins`. -/
def addCoins (accs : Accounts) (addr : AccAddress) (amt : Coins) : Option Accounts :=
  if Coins.isValid toLower amt then
    match Coins.add (getCoins accs addr) amt with
    | some newCoins =>
      if Coins.isAnyNegative newCoins then none else setCoins toLower accs addr newCoins
    | none => none
  else none

/-- `SendCoins`. -/
def sendCoins (accs : Accounts) (fromAddr toAddr : AccAddress) (amt : Coins) : Option Accounts :=
  (subtractCoins toLower blockTime accs fromAddr amt).bind fun accs =>
    addCoins toLower accs toAddr amt

/-- `bank.Input`; `bank.Output` has the same fields and checks. -/
structure Input where
  address : AccAddress
  coins : Coins

/-- `bank.Output`. -/
abbrev Output := Input

/-- `Input.ValidateBasic` and `Output.ValidateBasic`: an address, and valid positive coins. -/
def Input.validateBasic (i : Input) : Bool :=
  !i.address.isEmpty && Coins.isValid toLower i.coins && Coins.isAllPositive i.coins

/-- The loop of `ValidateInputsOutputs` over the inputs or the outputs: each passes
`ValidateBasic`, and their coins are added up (`Add` panics on an overflow). -/
def sumCoins (total : Coins) : List Input → Option Coins
  | [] => some total
  | i :: rest =>
    if i.validateBasic toLower then (Coins.add total i.coins).bind fun total => sumCoins total rest
    else none

/-- `ValidateInputsOutputs`: the inputs and the outputs add up to equal coins. -/
def validateInputsOutputs (inputs : List Input) (outputs : List Output) : Bool :=
  match sumCoins toLower [] inputs, sumCoins toLower [] outputs with
  | some totalIn, some totalOut => Coins.isEqual totalIn totalOut == some true
  | _, _ => false

/-- `InputOutputCoins`: take every input's coins, then add every output's. -/
def inputOutputCoins (accs : Accounts) (inputs : List Input) (outputs : List Output) :
    Option Accounts :=
  if validateInputsOutputs toLower inputs outputs then
    (inputs.foldlM (fun accs i => subtractCoins toLower blockTime accs i.address i.coins) accs).bind
      fun accs => outputs.foldlM (fun accs o => addCoins toLower accs o.address o.coins) accs
  else none

/-- `trackDelegation`: a vesting account tracks the delegation with `TrackDelegation` at the block
time, which panics where it cannot; any other account has its coins less `amt`. -/
def trackDelegation (acc : Account) (amt : Coins) : Option Account :=
  match acc.kind with
  | .vesting v => ((v.withCoins acc.coins).trackDelegation blockTime amt).map fun va =>
    ⟨va.coins, .vesting (Vesting.ofVestingAccount va)⟩
  | _ => (Coins.sub acc.coins amt).map fun coins => { acc with coins }

/-- `trackUndelegation`: a vesting account tracks the undelegation with `TrackUndelegation`, which
panics where it cannot; any other account has its coins plus `amt`. -/
def trackUndelegation (acc : Account) (amt : Coins) : Option Account :=
  match acc.kind with
  | .vesting v => ((v.withCoins acc.coins).trackUndelegation amt).map fun va =>
    ⟨va.coins, .vesting (Vesting.ofVestingAccount va)⟩
  | _ => (Coins.add acc.coins amt).map fun coins => { acc with coins }

/-- `DelegateCoins`: `amt` leaves the delegator's account, then is added to the module's. -/
def delegateCoins (accs : Accounts) (delegatorAddr moduleAccAddr : AccAddress) (amt : Coins) :
    Option Accounts :=
  match accs.lookup delegatorAddr, accs.lookup moduleAccAddr with
  | some delegatorAcc, some _ =>
    if Coins.isValid toLower amt then
      match Coins.safeSub delegatorAcc.coins amt with
      | some (_, false) =>
        (trackDelegation blockTime delegatorAcc amt).bind fun delegatorAcc =>
          addCoins toLower (accs.insert delegatorAddr delegatorAcc) moduleAccAddr amt
      | _ => none
    else none
  | _, _ => none

/-- `UndelegateCoins`: the module account is written with `amt` taken off, then the delegator's
account, as it was read before that write, with `amt` added. -/
def undelegateCoins (accs : Accounts) (moduleAccAddr delegatorAddr : AccAddress) (amt : Coins) :
    Option Accounts :=
  match accs.lookup delegatorAddr, accs.lookup moduleAccAddr with
  | some delegatorAcc, some moduleAcc =>
    if Coins.isValid toLower amt then
      match Coins.safeSub moduleAcc.coins amt with
      | some (newCoins, false) =>
        (setCoins toLower accs moduleAccAddr newCoins).bind fun accs =>
          (trackUndelegation delegatorAcc amt).map fun delegatorAcc =>
            accs.insert delegatorAddr delegatorAcc
      | _ => none
    else none
  | _, _ => none

/-! ## The total of the accounts -/

/-- The sum of all accounts' balances at `d`. -/
def total (accs : Accounts) (d : String) : Int :=
  Ledger.total (fun _ (acc : Account) => Coins.balance acc.coins d) accs

/-- Every account's coins are sorted. -/
def SortedCoins (accs : Accounts) : Prop :=
  ∀ addr acc, accs.lookup addr = some acc → Sorted CoinOf.denom acc.coins

theorem getCoins_of_lookup {accs : Accounts} {addr : AccAddress} {acc : Account}
    (h : accs.lookup addr = some acc) : getCoins accs addr = acc.coins := by
  rw [getCoins, h]

theorem getCoins_insert (accs : Accounts) (addr addr' : AccAddress) (acc : Account) :
    getCoins (accs.insert addr acc) addr' = if addr' = addr then acc.coins else getCoins accs addr' := by
  by_cases h : addr' = addr
  · subst h
    simp [getCoins]
  · simp [getCoins, AList.lookup_insert_ne h, h]

theorem SortedCoins.getCoins {accs : Accounts} (hs : SortedCoins accs) (addr : AccAddress) :
    Sorted CoinOf.denom (getCoins accs addr) := by
  unfold Bank.getCoins
  cases h : accs.lookup addr with
  | some acc => exact hs addr acc h
  | none => exact List.Pairwise.nil

theorem SortedCoins.insert {accs : Accounts} (hs : SortedCoins accs) (addr : AccAddress)
    {acc : Account} (h : Sorted CoinOf.denom acc.coins) : SortedCoins (accs.insert addr acc) := by
  intro addr' acc' h'
  by_cases ha : addr' = addr
  · subst ha
    rw [AList.lookup_insert] at h'
    cases h'
    exact h
  · rw [AList.lookup_insert_ne ha] at h'
    exact hs addr' acc' h'

/-- An account's weight in `total` is its balance. -/
theorem weightAt_balance (accs : Accounts) (addr : AccAddress) (d : String) :
    Ledger.weightAt (fun _ (acc : Account) => Coins.balance acc.coins d) accs addr =
      Coins.balance (getCoins accs addr) d := by
  unfold Ledger.weightAt Bank.getCoins
  cases accs.lookup addr <;> rfl

/-- Writing an account moves the total by its new balance less the old one. -/
theorem total_insert (accs : Accounts) (addr : AccAddress) (acc : Account) (d : String) :
    total (accs.insert addr acc) d =
      total accs d - Coins.balance (getCoins accs addr) d + Coins.balance acc.coins d := by
  rw [total, Ledger.total_insert, weightAt_balance]
  rfl

/-! ## One lemma per keeper call -/

variable {toLower blockTime} {accs accs' : Accounts}

/-- `SetCoins` moves the total by the new balance less the old one. -/
theorem setCoins_spec {addr : AccAddress} {amt : Coins} (hs : SortedCoins accs)
    (h : setCoins toLower accs addr amt = some accs') :
    SortedCoins accs' ∧ (∀ addr', getCoins accs' addr' = if addr' = addr then amt else getCoins accs addr') ∧
      ∀ d, total accs' d = total accs d - Coins.balance (getCoins accs addr) d + Coins.balance amt d := by
  unfold setCoins at h
  split_ifs at h with hv
  cases h
  exact ⟨hs.insert addr (Coins.sorted_of_isValid hv), fun addr' => getCoins_insert accs addr addr' _,
    fun d => total_insert accs addr _ d⟩

/-- A `SubtractCoins` that returns had a valid amount and stored the account's coins less it;
the spendable coins only decide whether it returns. -/
theorem subtractCoins_eq_some {addr : AccAddress} {amt : Coins}
    (h : subtractCoins toLower blockTime accs addr amt = some accs') :
    Coins.isValid toLower amt = true ∧ ∃ newCoins, Coins.sub (getCoins accs addr) amt = some newCoins ∧
      setCoins toLower accs addr newCoins = some accs' := by
  unfold subtractCoins at h
  split_ifs at h with hv
  obtain ⟨_, -, h⟩ := Option.bind_eq_some_iff.1 h
  split at h
  · exact ⟨hv, Option.bind_eq_some_iff.1 h⟩
  · cases h

/-- `SubtractCoins` takes `amt` off the total. -/
theorem subtractCoins_spec {addr : AccAddress} {amt : Coins} (hs : SortedCoins accs)
    (h : subtractCoins toLower blockTime accs addr amt = some accs') :
    SortedCoins accs' ∧ ∀ d, total accs' d = total accs d - Coins.balance amt d := by
  obtain ⟨hv, newCoins, hsub, hset⟩ := subtractCoins_eq_some h
  obtain ⟨hs', -, ht⟩ := setCoins_spec hs hset
  refine ⟨hs', fun d => ?_⟩
  rw [ht, Coins.balance_sub (hs.getCoins addr) (Coins.sorted_of_isValid hv) hsub]
  ring

/-- `AddCoins` adds `amt` to the total. -/
theorem addCoins_spec {addr : AccAddress} {amt : Coins} (hs : SortedCoins accs)
    (h : addCoins toLower accs addr amt = some accs') :
    SortedCoins accs' ∧ ∀ d, total accs' d = total accs d + Coins.balance amt d := by
  unfold addCoins at h
  split_ifs at h with hv
  split at h
  · rename_i newCoins hadd
    split_ifs at h
    obtain ⟨hs', -, ht⟩ := setCoins_spec hs h
    refine ⟨hs', fun d => ?_⟩
    rw [ht, Coins.balance_add (hs.getCoins addr) (Coins.sorted_of_isValid hv) hadd]
    ring
  · cases h

/-- `SubtractCoins` takes `amt` off the balance at `addr` and leaves every other address. -/
theorem balance_subtractCoins {addr : AccAddress} {amt : Coins} (hs : SortedCoins accs)
    (h : subtractCoins toLower blockTime accs addr amt = some accs') (a : AccAddress) (d : String) :
    Coins.balance (getCoins accs' a) d =
      Coins.balance (getCoins accs a) d - if a = addr then Coins.balance amt d else 0 := by
  obtain ⟨hv, newCoins, hsub, hset⟩ := subtractCoins_eq_some h
  rw [(setCoins_spec hs hset).2.1 a]
  by_cases ha : a = addr
  · subst ha
    rw [if_pos rfl, if_pos rfl]
    exact Coins.balance_sub (hs.getCoins a) (Coins.sorted_of_isValid hv) hsub d
  · rw [if_neg ha, if_neg ha, sub_zero]

/-- `AddCoins` adds `amt` to the balance at `addr` and leaves every other address. -/
theorem balance_addCoins {addr : AccAddress} {amt : Coins} (hs : SortedCoins accs)
    (h : addCoins toLower accs addr amt = some accs') (a : AccAddress) (d : String) :
    Coins.balance (getCoins accs' a) d =
      Coins.balance (getCoins accs a) d + if a = addr then Coins.balance amt d else 0 := by
  unfold addCoins at h
  split_ifs at h with hv
  split at h
  · rename_i newCoins hadd
    split_ifs at h
    rw [(setCoins_spec hs h).2.1 a]
    by_cases ha : a = addr
    · subst ha
      rw [if_pos rfl, if_pos rfl]
      exact Coins.balance_add (hs.getCoins a) (Coins.sorted_of_isValid hv) hadd d
    · rw [if_neg ha, if_neg ha, add_zero]
  · cases h

theorem isValid_of_subtractCoins {addr : AccAddress} {amt : Coins}
    (h : subtractCoins toLower blockTime accs addr amt = some accs') :
    Coins.isValid toLower amt = true :=
  (subtractCoins_eq_some h).1

theorem isValid_of_addCoins {addr : AccAddress} {amt : Coins}
    (h : addCoins toLower accs addr amt = some accs') : Coins.isValid toLower amt = true := by
  unfold addCoins at h
  split_ifs at h with hv
  exact hv

/-- `SendCoins` leaves the total as it was. -/
theorem sendCoins_spec {fromAddr toAddr : AccAddress} {amt : Coins} (hs : SortedCoins accs)
    (h : sendCoins toLower blockTime accs fromAddr toAddr amt = some accs') :
    SortedCoins accs' ∧ ∀ d, total accs' d = total accs d := by
  obtain ⟨accs₁, hsub, hadd⟩ := Option.bind_eq_some_iff.1 h
  obtain ⟨hs₁, ht₁⟩ := subtractCoins_spec hs hsub
  obtain ⟨hs', ht'⟩ := addCoins_spec hs₁ hadd
  exact ⟨hs', fun d => by rw [ht', ht₁]; ring⟩

/-- `SendCoins` moves `amt` from `fromAddr` to `toAddr` and leaves every other address. -/
theorem balance_sendCoins {fromAddr toAddr : AccAddress} {amt : Coins} (hs : SortedCoins accs)
    (h : sendCoins toLower blockTime accs fromAddr toAddr amt = some accs') (a : AccAddress) (d : String) :
    Coins.balance (getCoins accs' a) d = Coins.balance (getCoins accs a) d -
      (if a = fromAddr then Coins.balance amt d else 0) + if a = toAddr then Coins.balance amt d else 0 := by
  obtain ⟨accs₁, hsub, hadd⟩ := Option.bind_eq_some_iff.1 h
  rw [balance_addCoins (subtractCoins_spec hs hsub).1 hadd, balance_subtractCoins hs hsub]

theorem isValid_of_sendCoins {fromAddr toAddr : AccAddress} {amt : Coins}
    (h : sendCoins toLower blockTime accs fromAddr toAddr amt = some accs') : Coins.isValid toLower amt = true := by
  obtain ⟨accs₁, hsub, -⟩ := Option.bind_eq_some_iff.1 h
  exact isValid_of_subtractCoins hsub

theorem isValid_of_validateBasic {i : Input} (h : i.validateBasic toLower = true) :
    Coins.isValid toLower i.coins = true := by
  simp only [Input.validateBasic, Bool.and_eq_true] at h
  exact h.1.2

/-- The loop of `ValidateInputsOutputs` adds up the coins. -/
theorem sumCoins_spec : ∀ {t t' : Coins} {l : List Input}, Sorted CoinOf.denom t →
    sumCoins toLower t l = some t' →
    Sorted CoinOf.denom t' ∧ ∀ d, Coins.balance t' d = Coins.balance t d + (l.map fun i => Coins.balance i.coins d).sum
  | t, t', [], ht, h => by
    cases h
    exact ⟨ht, by simp⟩
  | t, t', i :: l, ht, h => by
    unfold sumCoins at h
    split_ifs at h with hv
    obtain ⟨t₁, hadd, hl⟩ := Option.bind_eq_some_iff.1 h
    have hi := Coins.sorted_of_isValid (isValid_of_validateBasic hv)
    obtain ⟨ht', hb'⟩ := sumCoins_spec (Coins.sorted_add ht hi hadd) hl
    refine ⟨ht', fun d => ?_⟩
    rw [hb', Coins.balance_add ht hi hadd, List.map_cons, List.sum_cons]
    ring

/-- Inputs and outputs that pass `ValidateInputsOutputs` carry the same balances. -/
theorem sum_eq_of_validateInputsOutputs {inputs : List Input} {outputs : List Output}
    (h : validateInputsOutputs toLower inputs outputs = true) (d : String) :
    (inputs.map fun i => Coins.balance i.coins d).sum = (outputs.map fun o => Coins.balance o.coins d).sum := by
  unfold validateInputsOutputs at h
  split at h
  · rename_i totalIn totalOut hin hout
    obtain ⟨hsi, hbi⟩ := sumCoins_spec List.Pairwise.nil hin
    obtain ⟨hso, hbo⟩ := sumCoins_spec List.Pairwise.nil hout
    -- equal totals, so equal balances
    have heq := Coins.eq_of_isEqual hsi hso (by simpa using h)
    have := hbi d
    rw [heq, hbo d, Coins.balance_nil] at this
    linarith
  · cases h

/-- `InputOutputCoins` leaves the total as it was. -/
theorem inputOutputCoins_spec {inputs : List Input} {outputs : List Output} (hs : SortedCoins accs)
    (h : inputOutputCoins toLower blockTime accs inputs outputs = some accs') :
    SortedCoins accs' ∧ ∀ d, total accs' d = total accs d := by
  unfold inputOutputCoins at h
  split_ifs at h with hv
  obtain ⟨accs₁, hin, hout⟩ := Option.bind_eq_some_iff.1 h
  refine ⟨?_, fun d => ?_⟩
  · -- the debits and the credits keep the coins sorted
    have h₁ := Ledger.foldlM_inv SortedCoins _ (fun _ _ _ hs h => (subtractCoins_spec hs h).1)
      inputs accs accs₁ hs hin
    exact Ledger.foldlM_inv SortedCoins _ (fun _ _ _ hs h => (addCoins_spec hs h).1)
      outputs accs₁ accs' h₁ hout
  · obtain ⟨hs₁, ht₁⟩ := Ledger.foldlM_spec SortedCoins (fun a => total a d)
      (fun i : Input => -Coins.balance i.coins d) _
      (fun _ _ _ hs h => ⟨(subtractCoins_spec hs h).1, by rw [(subtractCoins_spec hs h).2 d]; ring⟩)
      inputs accs accs₁ hs hin
    obtain ⟨-, ht'⟩ := Ledger.foldlM_spec SortedCoins (fun a => total a d)
      (fun o : Output => Coins.balance o.coins d) _
      (fun _ _ _ hs h => ⟨(addCoins_spec hs h).1, (addCoins_spec hs h).2 d⟩)
      outputs accs₁ accs' hs₁ hout
    have hneg : (inputs.map fun i : Input => -Coins.balance i.coins d).sum =
        -(inputs.map fun i : Input => Coins.balance i.coins d).sum := by
      rw [List.sum_neg, List.map_map]
      rfl
    rw [ht', ht₁, hneg, sum_eq_of_validateInputsOutputs hv d]
    ring

/-- `trackDelegation` takes a sorted amount off the account's coins, whatever its kind. -/
theorem trackDelegation_spec {acc acc' : Account} {amt : Coins} (hs : Sorted CoinOf.denom acc.coins)
    (ha : Sorted CoinOf.denom amt) (h : trackDelegation blockTime acc amt = some acc') :
    Sorted CoinOf.denom acc'.coins ∧
      ∀ d, Coins.balance acc'.coins d = Coins.balance acc.coins d - Coins.balance amt d := by
  unfold trackDelegation at h
  split at h
  · rename_i v _
    -- a vesting account also moves the amount between its delegated free and vesting coins
    obtain ⟨va, hva, rfl⟩ := Option.map_eq_some_iff.1 h
    obtain ⟨hs', hb⟩ := Auth.trackDelegation_coins
      (show Sorted CoinOf.denom (v.withCoins acc.coins).coins from hs) ha hva
    exact ⟨hs', hb⟩
  · obtain ⟨coins, hsub, rfl⟩ := Option.map_eq_some_iff.1 h
    exact ⟨Coins.sorted_sub hs ha hsub, Coins.balance_sub hs ha hsub⟩

/-- `trackUndelegation` adds a sorted amount to the account's coins, whatever its kind. -/
theorem trackUndelegation_spec {acc acc' : Account} {amt : Coins} (hs : Sorted CoinOf.denom acc.coins)
    (ha : Sorted CoinOf.denom amt) (h : trackUndelegation acc amt = some acc') :
    Sorted CoinOf.denom acc'.coins ∧
      ∀ d, Coins.balance acc'.coins d = Coins.balance acc.coins d + Coins.balance amt d := by
  unfold trackUndelegation at h
  split at h
  · rename_i v _
    obtain ⟨va, hva, rfl⟩ := Option.map_eq_some_iff.1 h
    obtain ⟨hs', hb⟩ := Auth.trackUndelegation_coins
      (show Sorted CoinOf.denom (v.withCoins acc.coins).coins from hs) ha hva
    exact ⟨hs', hb⟩
  · obtain ⟨coins, hadd, rfl⟩ := Option.map_eq_some_iff.1 h
    exact ⟨Coins.sorted_add hs ha hadd, Coins.balance_add hs ha hadd⟩

/-- `DelegateCoins` leaves the total as it was. -/
theorem delegateCoins_spec {delegatorAddr moduleAccAddr : AccAddress} {amt : Coins}
    (hs : SortedCoins accs)
    (h : delegateCoins toLower blockTime accs delegatorAddr moduleAccAddr amt = some accs') :
    SortedCoins accs' ∧ ∀ d, total accs' d = total accs d := by
  unfold delegateCoins at h
  split at h
  · rename_i delegatorAcc _ hd _
    split_ifs at h with hv
    split at h
    · obtain ⟨acc', htrack, hadd⟩ := Option.bind_eq_some_iff.1 h
      have ha := Coins.sorted_of_isValid hv
      obtain ⟨hs₁, hb₁⟩ := trackDelegation_spec (hs _ _ hd) ha htrack
      obtain ⟨hs', ht'⟩ := addCoins_spec (hs.insert delegatorAddr hs₁) hadd
      refine ⟨hs', fun d => ?_⟩
      rw [ht', total_insert, getCoins_of_lookup hd, hb₁]
      ring
    · cases h
  · cases h

/-- `UndelegateCoins` leaves the total as it was, except when the delegator is the module account
itself: the account it writes last was read before the module account was debited. -/
theorem undelegateCoins_spec {moduleAccAddr delegatorAddr : AccAddress} {amt : Coins}
    (hs : SortedCoins accs) (h : undelegateCoins toLower accs moduleAccAddr delegatorAddr amt = some accs') :
    SortedCoins accs' ∧ ∀ d, total accs' d =
      total accs d + if delegatorAddr = moduleAccAddr then Coins.balance amt d else 0 := by
  unfold undelegateCoins at h
  split at h
  · rename_i delegatorAcc moduleAcc hd hm
    split_ifs at h with hv
    split at h
    · rename_i newCoins hsafe
      obtain ⟨accs₁, hset, htrack⟩ := Option.bind_eq_some_iff.1 h
      obtain ⟨acc', htrack', rfl⟩ := Option.map_eq_some_iff.1 htrack
      have ha := Coins.sorted_of_isValid hv
      obtain ⟨hsd, hbd⟩ := trackUndelegation_spec (hs _ _ hd) ha htrack'
      obtain ⟨hs₁, hget₁, ht₁⟩ := setCoins_spec hs hset
      refine ⟨hs₁.insert delegatorAddr hsd, fun d => ?_⟩
      rw [total_insert, ht₁, hget₁, getCoins_of_lookup hm, hbd,
        Coins.balance_safeSub (hs _ _ hm) ha hsafe]
      by_cases he : delegatorAddr = moduleAccAddr
      · -- the stale read: the delegator's account is the module account before its debit
        subst he
        rw [hd] at hm
        cases hm
        simp only [if_true]
        rw [Coins.balance_safeSub (hs _ _ hd) ha hsafe]
        ring
      · simp only [he, if_false, getCoins_of_lookup hd]
        ring
    · cases h
  · cases h

/-- `UndelegateCoins` takes `amt` off the module account and adds it to the delegator's account as
it was read before the debit, so when the two are one account it ends with `amt` added. -/
theorem balance_undelegateCoins {moduleAccAddr delegatorAddr : AccAddress} {amt : Coins}
    (hs : SortedCoins accs) (h : undelegateCoins toLower accs moduleAccAddr delegatorAddr amt = some accs')
    (a : AccAddress) (d : String) :
    Coins.balance (getCoins accs' a) d = Coins.balance (getCoins accs a) d -
      (if a = moduleAccAddr ∧ a ≠ delegatorAddr then Coins.balance amt d else 0) +
        if a = delegatorAddr then Coins.balance amt d else 0 := by
  unfold undelegateCoins at h
  split at h
  · rename_i delegatorAcc moduleAcc hd hm
    split_ifs at h with hv
    split at h
    · rename_i newCoins hsafe
      obtain ⟨accs₁, hset, htrack⟩ := Option.bind_eq_some_iff.1 h
      obtain ⟨acc', htrack', rfl⟩ := Option.map_eq_some_iff.1 htrack
      have ha := Coins.sorted_of_isValid hv
      rw [getCoins_insert, (setCoins_spec hs hset).2.1 a]
      by_cases hdel : a = delegatorAddr
      · subst hdel
        rw [if_pos rfl, if_pos rfl, (trackUndelegation_spec (hs _ _ hd) ha htrack').2,
          getCoins_of_lookup hd]
        simp
      · rw [if_neg hdel, if_neg hdel, add_zero]
        by_cases hmod : a = moduleAccAddr
        · subst hmod
          rw [if_pos rfl, if_pos ⟨rfl, hdel⟩, Coins.balance_safeSub (hs _ _ hm) ha hsafe,
            getCoins_of_lookup hm]
        · rw [if_neg hmod, if_neg fun h => hmod h.1, sub_zero]
    · cases h
  · cases h

/-! ## Calls that return

Valid coins, amounts within `maxBitLen` bits and enough funds make `AddCoins`, `SubtractCoins`
and `SendCoins` return; each writes its result into the account at its address and keeps the
account's permissions. -/

/-- `AddCoins` returns when both sets are valid and no balance of the sum reaches `2 ^ 255`. -/
theorem addCoins_succeeds {addr : AccAddress} {amt : Coins}
    (hlow : ∀ d, DenomValid d → toLower d = d)
    (hv : CoinSet.Valid toLower SdkInt.i (getCoins accs addr))
    (hamt : CoinSet.Valid toLower SdkInt.i amt)
    (hroom : ∀ d, Coins.balance (getCoins accs addr) d + Coins.balance amt d < 2 ^ maxBitLen) :
    ∃ c, addCoins toLower accs addr amt =
        some (accs.insert addr { (accs.lookup addr).getD ⟨[], .base⟩ with coins := c }) ∧
      CoinSet.Valid toLower SdkInt.i c ∧
      ∀ d, Coins.balance c d = Coins.balance (getCoins accs addr) d + Coins.balance amt d := by
  have L := SdkInt.amountOps_lawful
  obtain ⟨c, hc, -, hbal⟩ := CoinSet.safeAdd_spec L hv.sorted hamt.sorted fun d =>
    CoinSet.natAbs_add_lt (CoinSet.balance_nonneg hv.nonNeg.nonneg d)
      (CoinSet.balance_nonneg hamt.nonNeg.nonneg d) (hroom d)
  have hcv := CoinSet.valid_safeAdd L hlow hv hamt hc
  -- a sum of valid sets has no negative amount
  have hneg : Coins.isAnyNegative c = false := by
    rw [Bool.eq_false_iff]
    intro h
    obtain ⟨x, hx, hlt⟩ := (CoinSet.isAnyNegative_iff L c).1 h
    exact absurd (hcv.pos x hx) (not_lt.2 hlt.le)
  have hva : Coins.isValid toLower amt = true := (CoinSet.isValid_iff L amt).2 hamt
  have hvc : Coins.isValid toLower c = true := (CoinSet.isValid_iff L c).2 hcv
  refine ⟨c, ?_, hcv, hbal⟩
  rw [addCoins, if_pos hva, show Coins.add (getCoins accs addr) amt = some c from hc]
  simp only [hneg, Bool.false_eq_true, if_false]
  rw [setCoins, if_pos hvc]

/-- A module account can spend all its coins. -/
theorem getSpendableCoins_of_permissions {addr : AccAddress} {acc : Account}
    (hl : accs.lookup addr = some acc) (hm : acc.permissions.isSome = true) :
    getSpendableCoins blockTime accs addr = some (getCoins accs addr) := by
  rw [getSpendableCoins, hl, getCoins_of_lookup hl]
  -- only a vesting account holds coins back, and it has no permissions
  cases hk : acc.kind with
  | vesting v => simp [Account.permissions, hk] at hm
  | _ => simp [Account.spendableCoins, hk]

/-- `SubtractCoins` returns when both sets are valid, every denom the account holds passes
`validateDenom`, the account can spend all its coins, and `amt` is nowhere above its balance. -/
theorem subtractCoins_succeeds {addr : AccAddress} {amt : Coins}
    (hlow : ∀ d, DenomValid d → toLower d = d)
    (hsp : getSpendableCoins blockTime accs addr = some (getCoins accs addr))
    (hv : CoinSet.Valid toLower SdkInt.i (getCoins accs addr))
    (hd : ∀ x ∈ getCoins accs addr, DenomValid x.denom)
    (hamt : CoinSet.Valid toLower SdkInt.i amt)
    (hle : ∀ d, Coins.balance amt d ≤ Coins.balance (getCoins accs addr) d) :
    ∃ c, subtractCoins toLower blockTime accs addr amt =
        some (accs.insert addr { (accs.lookup addr).getD ⟨[], .base⟩ with coins := c }) ∧
      CoinSet.Valid toLower SdkInt.i c ∧
      ∀ d, Coins.balance c d = Coins.balance (getCoins accs addr) d - Coins.balance amt d := by
  have L := SdkInt.amountOps_lawful
  obtain ⟨c, hc⟩ := CoinSet.safeSub_eq_some L hv.nonNeg hamt.nonNeg
  have hneg : CoinSet.isAnyNegative SdkInt.amountOps c = false := by
    rw [Bool.eq_false_iff]
    intro h
    obtain ⟨d, hlt⟩ := (CoinSet.hasNeg_iff L hv.sorted hamt.sorted hc).1 h
    exact absurd (hle d) (not_le.2 hlt)
  rw [hneg] at hc
  have hcv := CoinSet.valid_safeSub L hlow hv.nonNeg hamt.nonNeg hd hc
  have hva : Coins.isValid toLower amt = true := (CoinSet.isValid_iff L amt).2 hamt
  have hvc : Coins.isValid toLower c = true := (CoinSet.isValid_iff L c).2 hcv
  refine ⟨c, ?_, hcv, CoinSet.balance_safeSub L hv.sorted hamt.sorted hc⟩
  rw [subtractCoins, if_pos hva, hsp, Option.bind_some,
    show Coins.safeSub (getCoins accs addr) amt = some (c, false) from hc]
  rw [show Coins.sub (getCoins accs addr) amt = some c from Coins.sub_eq_some_iff.2 hc,
    Option.bind_some, setCoins, if_pos hvc]

/-- `SendCoins` between two addresses whose debit has returned returns when `AddCoins` would. -/
theorem sendCoins_of_subtractCoins {fromAddr toAddr : AccAddress} {amt c₁ : Coins}
    (hne : fromAddr ≠ toAddr) (hlow : ∀ d, DenomValid d → toLower d = d)
    (hsub : subtractCoins toLower blockTime accs fromAddr amt =
      some (accs.insert fromAddr { (accs.lookup fromAddr).getD ⟨[], .base⟩ with coins := c₁ }))
    (hvt : CoinSet.Valid toLower SdkInt.i (getCoins accs toAddr))
    (hamt : CoinSet.Valid toLower SdkInt.i amt)
    (hroom : ∀ d, Coins.balance (getCoins accs toAddr) d + Coins.balance amt d < 2 ^ maxBitLen) :
    ∃ c₂, sendCoins toLower blockTime accs fromAddr toAddr amt =
        some ((accs.insert fromAddr { (accs.lookup fromAddr).getD ⟨[], .base⟩ with coins := c₁ }).insert
          toAddr { (accs.lookup toAddr).getD ⟨[], .base⟩ with coins := c₂ }) ∧
      CoinSet.Valid toLower SdkInt.i c₂ ∧
      ∀ d, Coins.balance c₂ d = Coins.balance (getCoins accs toAddr) d + Coins.balance amt d := by
  -- the debit leaves the recipient's account as it was
  set accs₁ := accs.insert fromAddr { (accs.lookup fromAddr).getD ⟨[], .base⟩ with coins := c₁ }
  have hto : getCoins accs₁ toAddr = getCoins accs toAddr := by
    rw [getCoins_insert, if_neg (Ne.symm hne)]
  have hl : accs₁.lookup toAddr = accs.lookup toAddr := AList.lookup_insert_ne (Ne.symm hne)
  obtain ⟨c₂, h₂, hv₂, hb₂⟩ := addCoins_succeeds hlow (hto ▸ hvt) hamt (hto ▸ hroom)
  refine ⟨c₂, ?_, hv₂, hto ▸ hb₂⟩
  rw [sendCoins, hsub, Option.bind_some, h₂, hl]

/-- `SendCoins` between two addresses returns when `SubtractCoins` and `AddCoins` would. -/
theorem sendCoins_succeeds {fromAddr toAddr : AccAddress} {amt : Coins} (hne : fromAddr ≠ toAddr)
    (hlow : ∀ d, DenomValid d → toLower d = d)
    (hsp : getSpendableCoins blockTime accs fromAddr = some (getCoins accs fromAddr))
    (hvf : CoinSet.Valid toLower SdkInt.i (getCoins accs fromAddr))
    (hdf : ∀ x ∈ getCoins accs fromAddr, DenomValid x.denom)
    (hvt : CoinSet.Valid toLower SdkInt.i (getCoins accs toAddr))
    (hamt : CoinSet.Valid toLower SdkInt.i amt)
    (hle : ∀ d, Coins.balance amt d ≤ Coins.balance (getCoins accs fromAddr) d)
    (hroom : ∀ d, Coins.balance (getCoins accs toAddr) d + Coins.balance amt d < 2 ^ maxBitLen) :
    ∃ c₁ c₂, sendCoins toLower blockTime accs fromAddr toAddr amt =
        some ((accs.insert fromAddr { (accs.lookup fromAddr).getD ⟨[], .base⟩ with coins := c₁ }).insert
          toAddr { (accs.lookup toAddr).getD ⟨[], .base⟩ with coins := c₂ }) ∧
      CoinSet.Valid toLower SdkInt.i c₁ ∧ CoinSet.Valid toLower SdkInt.i c₂ ∧
      (∀ d, Coins.balance c₁ d = Coins.balance (getCoins accs fromAddr) d - Coins.balance amt d) ∧
      ∀ d, Coins.balance c₂ d = Coins.balance (getCoins accs toAddr) d + Coins.balance amt d := by
  obtain ⟨c₁, h₁, hv₁, hb₁⟩ := subtractCoins_succeeds hlow hsp hvf hdf hamt hle
  obtain ⟨c₂, h₂, hv₂, hb₂⟩ := sendCoins_of_subtractCoins hne hlow h₁ hvt hamt hroom
  exact ⟨c₁, c₂, h₂, hv₁, hv₂, hb₁, hb₂⟩

/-! ## Accounts keep their kind

A keeper call writes the coins of the accounts it touches, and creates a base account where there
was none; it removes no account and changes no account's kind. A module account stays one, and
so never signs (`canSign`). -/

/-- Every account of `accs` is still stored in `accs'`, with its permissions. -/
def Keeps (accs accs' : Accounts) : Prop :=
  ∀ addr acc, accs.lookup addr = some acc →
    ∃ acc', accs'.lookup addr = some acc' ∧ acc'.permissions = acc.permissions

theorem Keeps.refl (accs : Accounts) : Keeps accs accs := fun _ acc h => ⟨acc, h, rfl⟩

theorem Keeps.trans {accs₁ accs₂ accs₃ : Accounts} (h₁ : Keeps accs₁ accs₂) (h₂ : Keeps accs₂ accs₃) :
    Keeps accs₁ accs₃ := by
  intro addr acc h
  obtain ⟨acc₂, h₂', hp₂⟩ := h₁ addr acc h
  obtain ⟨acc₃, h₃, hp₃⟩ := h₂ addr acc₂ h₂'
  exact ⟨acc₃, h₃, hp₃.trans hp₂⟩

/-- Writing an account with the permissions of the one it replaces. -/
theorem keeps_insert {addr : AccAddress} {acc : Account}
    (h : ∀ old, accs.lookup addr = some old → acc.permissions = old.permissions) :
    Keeps accs (accs.insert addr acc) := by
  intro a old hl
  by_cases ha : a = addr
  · subst ha
    exact ⟨acc, AList.lookup_insert _, h old hl⟩
  · exact ⟨old, by rw [AList.lookup_insert_ne ha]; exact hl, rfl⟩

/-- A stored module account is not an address that can sign. -/
theorem ne_of_canSign {addr moduleAddr : AccAddress} {acc : Account}
    (hl : accs.lookup moduleAddr = some acc) (hm : acc.permissions.isSome = true)
    (h : canSign accs addr = true) : addr ≠ moduleAddr := by
  rintro rfl
  rw [canSign, hl] at h
  cases hp : acc.permissions <;> simp_all

theorem trackDelegation_permissions {acc acc' : Account} {amt : Coins}
    (h : trackDelegation blockTime acc amt = some acc') : acc'.permissions = acc.permissions := by
  unfold trackDelegation at h
  split at h
  · rename_i v hk
    obtain ⟨va, -, rfl⟩ := Option.map_eq_some_iff.1 h
    simp [Account.permissions, hk]
  · obtain ⟨coins, -, rfl⟩ := Option.map_eq_some_iff.1 h
    rfl

theorem trackUndelegation_permissions {acc acc' : Account} {amt : Coins}
    (h : trackUndelegation acc amt = some acc') : acc'.permissions = acc.permissions := by
  unfold trackUndelegation at h
  split at h
  · rename_i v hk
    obtain ⟨va, -, rfl⟩ := Option.map_eq_some_iff.1 h
    simp [Account.permissions, hk]
  · obtain ⟨coins, -, rfl⟩ := Option.map_eq_some_iff.1 h
    rfl

section Keeps

variable {addr : AccAddress} {amt : Coins}

theorem setCoins_keeps (h : setCoins toLower accs addr amt = some accs') : Keeps accs accs' := by
  unfold setCoins at h
  split_ifs at h
  cases h
  exact keeps_insert fun old hl => by rw [hl]; rfl

theorem subtractCoins_keeps (h : subtractCoins toLower blockTime accs addr amt = some accs') :
    Keeps accs accs' := by
  obtain ⟨-, _, -, hset⟩ := subtractCoins_eq_some h
  exact setCoins_keeps hset

theorem addCoins_keeps (h : addCoins toLower accs addr amt = some accs') : Keeps accs accs' := by
  unfold addCoins at h
  split_ifs at h
  split at h
  · split_ifs at h
    exact setCoins_keeps h
  · cases h

theorem sendCoins_keeps {toAddr : AccAddress}
    (h : sendCoins toLower blockTime accs addr toAddr amt = some accs') : Keeps accs accs' := by
  obtain ⟨accs₁, hsub, hadd⟩ := Option.bind_eq_some_iff.1 h
  exact (subtractCoins_keeps hsub).trans (addCoins_keeps hadd)

theorem inputOutputCoins_keeps {inputs : List Input} {outputs : List Output}
    (h : inputOutputCoins toLower blockTime accs inputs outputs = some accs') : Keeps accs accs' := by
  unfold inputOutputCoins at h
  split_ifs at h
  obtain ⟨accs₁, hin, hout⟩ := Option.bind_eq_some_iff.1 h
  have h₁ := Ledger.foldlM_inv (Keeps accs) _ (fun _ _ _ hk h => hk.trans (subtractCoins_keeps h))
    inputs accs accs₁ (Keeps.refl accs) hin
  exact Ledger.foldlM_inv (Keeps accs) _ (fun _ _ _ hk h => hk.trans (addCoins_keeps h))
    outputs accs₁ accs' h₁ hout

theorem delegateCoins_keeps {moduleAccAddr : AccAddress}
    (h : delegateCoins toLower blockTime accs addr moduleAccAddr amt = some accs') :
    Keeps accs accs' := by
  unfold delegateCoins at h
  split at h
  · rename_i delegatorAcc _ hd _
    split_ifs at h
    split at h
    · obtain ⟨acc', htrack, hadd⟩ := Option.bind_eq_some_iff.1 h
      refine (keeps_insert fun old hl => ?_).trans (addCoins_keeps hadd)
      rw [hd] at hl
      cases hl
      exact trackDelegation_permissions htrack
    · cases h
  · cases h

theorem undelegateCoins_keeps {moduleAccAddr : AccAddress}
    (h : undelegateCoins toLower accs moduleAccAddr addr amt = some accs') : Keeps accs accs' := by
  unfold undelegateCoins at h
  split at h
  · rename_i delegatorAcc _ hd _
    split_ifs at h
    split at h
    · obtain ⟨accs₁, hset, htrack⟩ := Option.bind_eq_some_iff.1 h
      obtain ⟨acc', htrack', rfl⟩ := Option.map_eq_some_iff.1 htrack
      -- the delegator's account as `SetCoins` left it has the permissions read before
      obtain ⟨acc₁, hl₁, hp₁⟩ := setCoins_keeps hset _ _ hd
      refine (setCoins_keeps hset).trans (keeps_insert fun old hl => ?_)
      rw [hl₁] at hl
      cases hl
      rw [trackUndelegation_permissions htrack', hp₁]
    · cases h
  · cases h

end Keeps

end Barkis.Bank
