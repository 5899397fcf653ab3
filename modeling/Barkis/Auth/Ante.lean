import Barkis.Bank.Keeper
import Barkis.Lib.Check

/-!
# The ante handler, and replay over runs of `DeliverTx`

`x/auth/ante.go` in deliver mode, with `StdTx` (`x/auth/types/stdtx.go`) and the account keeper's
store (`x/auth/keeper.go`). Every signer signs the `StdSignDoc` of its account number and
sequence; `processSig` checks the signature and writes the account back with the next sequence,
a `uint64` that wraps. Public keys are hashed to addresses by `pubKeyAddress`, and `verifyBytes`
is `PubKey.VerifyBytes` over the sign document: `IdealVerify` says that a signature verifies for
one document only, under the keys of one address.

A run is a list of `DeliverTx` calls and block ends. A transaction keeps the ante handler's
writes once it passes, and its messages' writes when they all pass; messages and blocks write
the account store through the bank keeper's `SetCoins` and the supply keeper's new module
accounts (`Write`).

* `anteHandler_sequence`: a pass adds one to the sequence of each signer and changes no other
  account's number, sequence or key.
* `run_sequence`: over a run, an account's sequence moves on by the number of passes it signs.
* `ante_replay_rejected`: once a signature passes, a transaction that carries it again is
  rejected unless its signer has passed `2 ^ 64 - 1` more times; `ante_replay_protection` puts
  the three together, and `replay_after_wrap` is a run in which the signer has, and the same
  transaction passes again.
-/

namespace Barkis.Auth.Ante

open Bank (AccAddress)

/-- `crypto.PubKey`, by the key types the ante handler tells apart. -/
inductive PubKey
  | secp256k1 (key : List UInt8)
  | ed25519 (key : List UInt8)
  | multisigThreshold (k : Nat) (pubKeys : List PubKey)

mutual

/-- `CountSubKeys`: a multisig key counts the keys under it, any other key one. -/
def PubKey.countSubKeys : PubKey → Nat
  | .multisigThreshold _ pubKeys => countSubKeysList pubKeys
  | _ => 1

/-- The keys under the keys of a multisig key. -/
def countSubKeysList : List PubKey → Nat
  | [] => 0
  | pk :: pks => pk.countSubKeys + countSubKeysList pks

end

/-- `StdFee`. -/
structure StdFee where
  amount : Coins
  gas : UInt64
deriving DecidableEq

/-- `StdSignature`: an optional public key, and the signature's bytes. -/
structure StdSignature (Sig : Type) where
  pubKey : Option PubKey
  signature : Sig

/-- `StdTx`. -/
structure StdTx (Msg Sig : Type) where
  msgs : List Msg
  fee : StdFee
  signatures : List (StdSignature Sig)
  memo : String

/-- `StdSignDoc`, which `StdSignBytes` encodes. -/
structure StdSignDoc (Msg : Type) where
  accountNumber : UInt64
  chainID : String
  fee : StdFee
  memo : String
  msgs : List Msg
  sequence : UInt64
deriving DecidableEq

/-- `BaseAccount`, or a `ModuleAccount` with its permissions. -/
structure Account where
  address : AccAddress
  coins : Coins
  pubKey : Option PubKey
  accountNumber : UInt64
  sequence : UInt64
  permissions : Option (List String)

/-- The account store, and the global account number. -/
structure State where
  accounts : AList fun _ : AccAddress => Account
  globalAccountNumber : UInt64

/-- The `auth` parameters the ante handler checks. -/
structure Params where
  maxMemoCharacters : UInt64
  txSigLimit : UInt64

/-- The errors of the ante handler and the keepers it calls; a panic is recovered by `runTx`. -/
inductive AnteError
  | tooManySignatures
  | gasOverflow
  | insufficientFee
  | noSignatures
  | unauthorized
  | memoTooLarge
  | unknownAddress
  | insufficientFunds
  | invalidCoins
  | insufficientCoins
  | invalidPubKey
  | internal
  | panic
deriving DecidableEq, Repr

/-! ## The account keeper and the bank keeper on the account store -/

/-- `GetAccount`. -/
def getAccount (s : State) (addr : AccAddress) : Option Account := s.accounts.lookup addr

/-- `SetAccount`. -/
def setAccount (s : State) (acc : Account) : State :=
  { s with accounts := s.accounts.insert acc.address acc }

/-- `GetNextAccountNumber`: the global account number, which is incremented. -/
def getNextAccountNumber (s : State) : UInt64 × State :=
  (s.globalAccountNumber, { s with globalAccountNumber := s.globalAccountNumber + 1 })

/-- `NewAccountWithAddress`: a base account with the next account number. -/
def newAccountWithAddress (s : State) (addr : AccAddress) : Account × State :=
  let (accountNumber, s) := getNextAccountNumber s
  (⟨addr, [], none, accountNumber, 0, none⟩, s)

/-- `GetModuleAccountAndPermissions` at the module's address: the stored module account, or a new
one with the next account number. -/
def getModuleAccount (s : State) (addr : AccAddress) (permissions : List String) :
    Except AnteError (Account × State) :=
  match getAccount s addr with
  | some acc => if acc.permissions.isSome then pure (acc, s) else throw .panic
  | none =>
    let (accountNumber, s) := getNextAccountNumber s
    let acc : Account := ⟨addr, [], none, accountNumber, 0, some permissions⟩
    pure (acc, setAccount s acc)

variable (toLower : String → String)

/-- `SetCoins`. -/
def setCoins (s : State) (addr : AccAddress) (amt : Coins) : Except AnteError State :=
  if Coins.isValid toLower amt then
    let (acc, s) := match getAccount s addr with
      | some acc => (acc, s)
      | none => newAccountWithAddress s addr
    pure (setAccount s { acc with coins := amt })
  else throw .invalidCoins

/-- `GetCoins`. -/
def getCoins (s : State) (addr : AccAddress) : Coins :=
  match getAccount s addr with
  | some acc => acc.coins
  | none => []

/-- `SubtractCoins`: an account can spend all its coins. -/
def subtractCoins (s : State) (addr : AccAddress) (amt : Coins) : Except AnteError State :=
  if Coins.isValid toLower amt then
    match Coins.safeSub (getCoins s addr) amt with
    | some (_, false) =>
      match Coins.sub (getCoins s addr) amt with
      | some newCoins => setCoins toLower s addr newCoins
      | none => throw .panic
    | some (_, true) => throw .insufficientCoins
    | none => throw .panic
  else throw .invalidCoins

/-- `AddCoins`. -/
def addCoins (s : State) (addr : AccAddress) (amt : Coins) : Except AnteError State :=
  if Coins.isValid toLower amt then
    match Coins.add (getCoins s addr) amt with
    | some newCoins =>
      if Coins.isAnyNegative newCoins then throw .insufficientCoins
      else setCoins toLower s addr newCoins
    | none => throw .panic
  else throw .invalidCoins

/-- `SendCoins`. -/
def sendCoins (s : State) (fromAddr toAddr : AccAddress) (amt : Coins) : Except AnteError State := do
  let s ← subtractCoins toLower s fromAddr amt
  addCoins toLower s toAddr amt

/-- `SendCoinsFromAccountToModule` to the fee collector at `feeCollector`. -/
def sendCoinsFromAccountToModule (feeCollector : AccAddress) (s : State) (senderAddr : AccAddress)
    (amt : Coins) : Except AnteError State := do
  let (recipientAcc, s) ← getModuleAccount s feeCollector []
  sendCoins toLower s senderAddr recipientAcc.address amt

/-- `DeductFees`: every coin of an account is spendable. -/
def deductFees (feeCollector : AccAddress) (s : State) (acc : Account) (fees : Coins) :
    Except AnteError State :=
  if !Coins.isValid toLower fees then throw .insufficientFee
  else
    -- verify the account has enough funds to pay for fees
    match Coins.safeSub acc.coins fees with
    | some (_, false) => sendCoinsFromAccountToModule toLower feeCollector s acc.address fees
    | some (_, true) => throw .insufficientFunds
    | none => throw .panic

/-! ## The ante handler -/

variable {Msg Sig : Type} (msgSigners : Msg → List AccAddress)
  (pubKeyAddress : PubKey → AccAddress) (verifyBytes : PubKey → StdSignDoc Msg → Sig → Bool)

/-- `StdTx.GetSigners`: the signers of the messages in order, each address once. -/
def getSigners (msgs : List Msg) : List AccAddress :=
  (msgs.flatMap msgSigners).foldl
    (fun signers addr => if addr ∈ signers then signers else signers ++ [addr]) []

/-- `maxGasWanted`. -/
def maxGasWanted : UInt64 := ((1 : UInt64) <<< 63) - 1

/-- `StdTx.ValidateBasic`. -/
def StdTx.validateBasic (tx : StdTx Msg Sig) : Except AnteError Unit := do
  if tx.fee.gas > maxGasWanted then throw .gasOverflow
  if Coins.isAnyNegative tx.fee.amount then throw .insufficientFee
  if tx.signatures.length = 0 then throw .noSignatures
  if tx.signatures.length ≠ (getSigners msgSigners tx.msgs).length then throw .unauthorized

/-- The loop of `ValidateSigCount`, from the count so far. -/
def validateSigCount (txSigLimit : UInt64) (sigCount : Nat) :
    List (StdSignature Sig) → Except AnteError Unit
  | [] => pure ()
  | sig :: sigs =>
    let sigCount := sigCount + (sig.pubKey.map PubKey.countSubKeys).getD 1
    if sigCount > txSigLimit.toNat then throw .tooManySignatures
    else validateSigCount txSigLimit sigCount sigs

/-- `ValidateMemo`. -/
def validateMemo (maxMemoCharacters : UInt64) (tx : StdTx Msg Sig) : Except AnteError Unit :=
  if tx.memo.utf8ByteSize > maxMemoCharacters.toNat then throw .memoTooLarge else pure ()

/-- `GetSignBytes`: the account number is zero at genesis. -/
def getSignBytes (chainID : String) (tx : StdTx Msg Sig) (acc : Account) (genesis : Bool) :
    StdSignDoc Msg :=
  ⟨if genesis then 0 else acc.accountNumber, chainID, tx.fee, tx.memo, tx.msgs, acc.sequence⟩

/-- `ProcessPubKey` outside simulation: the account's key, or the signature's when it hashes to
the account's address. -/
def processPubKey (acc : Account) (sig : StdSignature Sig) : Except AnteError PubKey :=
  match acc.pubKey with
  | some pubKey => pure pubKey
  | none =>
    match sig.pubKey with
    | none => throw .invalidPubKey
    | some pubKey =>
      if pubKeyAddress pubKey = acc.address then pure pubKey else throw .invalidPubKey

/-- `DefaultSigVerificationGasConsumer`: ed25519 keys are refused. -/
def defaultSigVerificationGasConsumer : PubKey → Except AnteError Unit
  | .ed25519 _ => throw .invalidPubKey
  | .secp256k1 _ => pure ()
  | .multisigThreshold _ _ => pure ()

/-- `processSig` outside simulation: the account with its key set and the next sequence. -/
def processSig (acc : Account) (sig : StdSignature Sig) (signBytes : StdSignDoc Msg) :
    Except AnteError Account := do
  let pubKey ← processPubKey pubKeyAddress acc sig
  -- `ModuleAccount.SetPubKey` fails
  if acc.permissions.isSome then throw .internal
  defaultSigVerificationGasConsumer pubKey
  if !verifyBytes pubKey signBytes sig.signature then throw .unauthorized
  pure { acc with pubKey := some pubKey, sequence := acc.sequence + 1 }

/-- The signatures after the fee payer's: each signer's account is read, its signature checked,
and the account written back. -/
def processSigs (chainID : String) (tx : StdTx Msg Sig) (isGenesis : Bool) (s : State) :
    List (AccAddress × StdSignature Sig) → Except AnteError State
  | [] => pure s
  | (addr, sig) :: rest => do
    let some acc := getAccount s addr | throw .unknownAddress
    let acc ← processSig pubKeyAddress verifyBytes acc sig (getSignBytes chainID tx acc isGenesis)
    processSigs chainID tx isGenesis (setAccount s acc) rest

/-- `NewAnteHandler` in deliver mode, outside simulation. -/
def anteHandler (feeCollector : Option AccAddress) (params : Params) (chainID : String)
    (height : Nat) (s : State) (tx : StdTx Msg Sig) : Except AnteError State := do
  let some feeCollector := feeCollector | throw .panic
  validateSigCount params.txSigLimit 0 tx.signatures
  tx.validateBasic msgSigners
  validateMemo params.maxMemoCharacters tx
  let signerAddrs := getSigners msgSigners tx.msgs
  let isGenesis := height == 0
  -- the first signer pays the fees
  let (addr₀, sig₀) :: rest := signerAddrs.zip tx.signatures | throw .panic
  let some acc₀ := getAccount s addr₀ | throw .unknownAddress
  let (s, acc₀) ← if Coins.isZero tx.fee.amount then pure (s, acc₀) else do
    let s ← deductFees toLower feeCollector s acc₀ tx.fee.amount
    -- reload the account as fees have been deducted
    let some acc₀ := getAccount s acc₀.address | throw .panic
    pure (s, acc₀)
  let acc₀ ← processSig pubKeyAddress verifyBytes acc₀ sig₀ (getSignBytes chainID tx acc₀ isGenesis)
  processSigs pubKeyAddress verifyBytes chainID tx isGenesis (setAccount s acc₀) rest

/-! ## Runs of `DeliverTx` -/

/-- A write of a message or a block to the account store: the bank keeper's `SetCoins`, which
every move of coins ends in, or the supply keeper creating a module account. -/
inductive Write
  | setCoins (addr : AccAddress) (amt : Coins)
  | newModuleAccount (addr : AccAddress) (permissions : List String)

/-- One write. -/
def Write.apply (s : State) : Write → Except AnteError State
  | .setCoins addr amt => Ante.setCoins toLower s addr amt
  | .newModuleAccount addr permissions => (getModuleAccount s addr permissions).map Prod.snd

/-- Writes in order, up to the first that fails. -/
def applyWrites (s : State) (writes : List Write) : Except AnteError State :=
  writes.foldlM (Write.apply toLower) s

/-- What a chain fixes for all its transactions. -/
structure Env (Msg Sig : Type) where
  toLower : String → String
  msgSigners : Msg → List AccAddress
  pubKeyAddress : PubKey → AccAddress
  verifyBytes : PubKey → StdSignDoc Msg → Sig → Bool
  feeCollector : Option AccAddress
  params : Params
  chainID : String

/-- The ante handler of the chain. -/
def Env.ante (env : Env Msg Sig) (height : Nat) (s : State) (tx : StdTx Msg Sig) :
    Except AnteError State :=
  anteHandler env.toLower env.msgSigners env.pubKeyAddress env.verifyBytes env.feeCollector
    env.params env.chainID height s tx

/-- The account store, and the height of the block being built. -/
structure Chain where
  state : State
  height : Nat

/-- A step of a run: a transaction with its messages' writes, or the end of a block with the
writes of `EndBlock` and of the next `BeginBlock`. -/
inductive Event (Msg Sig : Type)
  | deliverTx (tx : StdTx Msg Sig) (msgWrites : List Write)
  | endBlock (writes : List Write)

/-- `DeliverTx`: the ante handler's writes stay once it passes, the messages' writes only when
they all pass. -/
def deliverTx (env : Env Msg Sig) (c : Chain) (tx : StdTx Msg Sig) (msgWrites : List Write) :
    Chain :=
  match env.ante c.height c.state tx with
  | .error _ => c
  | .ok s =>
    match applyWrites env.toLower s msgWrites with
    | .ok s => { c with state := s }
    | .error _ => { c with state := s }

/-- The end of a block; a write that fails there halts the chain. -/
def endBlock (env : Env Msg Sig) (c : Chain) (writes : List Write) : Option Chain :=
  match applyWrites env.toLower c.state writes with
  | .ok s => some ⟨s, c.height + 1⟩
  | .error _ => none

/-- One step of a run. -/
def step (env : Env Msg Sig) (c : Chain) : Event Msg Sig → Option Chain
  | .deliverTx tx msgWrites => some (deliverTx env c tx msgWrites)
  | .endBlock writes => endBlock env c writes

/-- A run, up to a halt. -/
def run (env : Env Msg Sig) (c : Chain) : List (Event Msg Sig) → Option Chain
  | [] => some c
  | e :: es => (step env c e).bind fun c => run env c es

/-- Whether `e` is a transaction that passes the ante handler at `c` and that `addr` signs. -/
def signs (env : Env Msg Sig) (c : Chain) (addr : AccAddress) : Event Msg Sig → Bool
  | .deliverTx tx _ =>
    (env.ante c.height c.state tx).isOk && decide (addr ∈ getSigners env.msgSigners tx.msgs)
  | .endBlock _ => false

/-- How many transactions of a run pass the ante handler signed by `addr`. -/
def passes (env : Env Msg Sig) (addr : AccAddress) (c : Chain) : List (Event Msg Sig) → Nat
  | [] => 0
  | e :: es =>
    match step env c e with
    | some c' => (if signs env c addr e then 1 else 0) + passes env addr c' es
    | none => 0

/-! ## What the keepers keep of an account -/

/-- What the ante handler reads of an account besides its coins and permissions. -/
def Account.auth (acc : Account) : AccAddress × UInt64 × UInt64 × Option PubKey :=
  (acc.address, acc.accountNumber, acc.sequence, acc.pubKey)

theorem Account.auth_eq_iff {acc acc' : Account} :
    acc'.auth = acc.auth ↔ acc'.address = acc.address ∧ acc'.accountNumber = acc.accountNumber ∧
      acc'.sequence = acc.sequence ∧ acc'.pubKey = acc.pubKey := by
  simp only [Account.auth, Prod.mk.injEq]

/-- Every account is stored under its address. -/
def Keyed (s : State) : Prop := ∀ addr acc, getAccount s addr = some acc → acc.address = addr

/-- `s'` keeps the address, number, sequence and key of every account of `s`, and every account
it adds is stored under its address without a key. -/
structure Keeps (s s' : State) : Prop where
  old : ∀ addr acc, getAccount s addr = some acc →
    ∃ acc', getAccount s' addr = some acc' ∧ acc'.auth = acc.auth
  new : ∀ addr acc', getAccount s' addr = some acc' → getAccount s addr = none →
    acc'.address = addr ∧ acc'.pubKey = none

/-- Every account is stored under its address, and a key an account holds hashes to that
address. -/
structure WellKeyed (pubKeyAddress : PubKey → AccAddress) (s : State) : Prop where
  keyed : Keyed s
  keys : ∀ addr acc pk, getAccount s addr = some acc → acc.pubKey = some pk →
    pubKeyAddress pk = addr

/-- `s'` holds every account of `s` with its number and the key it had, and its sequence moved
on by `n addr`. -/
def Advances (s s' : State) (n : AccAddress → Nat) : Prop :=
  ∀ addr acc, getAccount s addr = some acc → ∃ acc', getAccount s' addr = some acc' ∧
    acc'.accountNumber = acc.accountNumber ∧ acc'.sequence = acc.sequence + UInt64.ofNat (n addr) ∧
    ∀ pk, acc.pubKey = some pk → acc'.pubKey = some pk

section Store

variable {s s' s'' : State}

@[simp] theorem getAccount_setAccount (s : State) (acc : Account) (addr : AccAddress) :
    getAccount (setAccount s acc) addr =
      if addr = acc.address then some acc else getAccount s addr := by
  unfold getAccount setAccount
  split_ifs with h
  · subst h
    exact AList.lookup_insert _
  · exact AList.lookup_insert_ne h

@[simp] theorem getAccount_getNextAccountNumber (s : State) (addr : AccAddress) :
    getAccount (getNextAccountNumber s).2 addr = getAccount s addr := rfl

theorem Keeps.refl (s : State) : Keeps s s :=
  ⟨fun _ acc h => ⟨acc, h, rfl⟩, fun _ _ h h' => by rw [h] at h'; cases h'⟩

theorem Keeps.trans (h₁ : Keeps s s') (h₂ : Keeps s' s'') : Keeps s s'' where
  old addr acc h := by
    obtain ⟨acc', h', ha'⟩ := h₁.old addr acc h
    obtain ⟨acc'', h'', ha''⟩ := h₂.old addr acc' h'
    exact ⟨acc'', h'', ha''.trans ha'⟩
  new addr acc'' h'' h := by
    cases h' : getAccount s' addr with
    | none => exact h₂.new addr acc'' h'' h'
    | some acc' =>
      -- added by the first step, and kept by the second
      obtain ⟨hadr, hpk⟩ := h₁.new addr acc' h' h
      obtain ⟨acc₂, h₂', ha⟩ := h₂.old addr acc' h'
      rw [h''] at h₂'
      cases h₂'
      rw [Account.auth_eq_iff] at ha
      exact ⟨ha.1.trans hadr, ha.2.2.2.trans hpk⟩

theorem Keeps.keyed (h : Keeps s s') (hk : Keyed s) : Keyed s' := fun addr acc' h' => by
  cases hs : getAccount s addr with
  | none => exact (h.new addr acc' h' hs).1
  | some acc =>
    obtain ⟨acc₂, h₂, ha⟩ := h.old addr acc hs
    rw [h'] at h₂
    cases h₂
    rw [Account.auth_eq_iff] at ha
    exact ha.1.trans (hk addr acc hs)

theorem Keeps.wellKeyed {pubKeyAddress : PubKey → AccAddress} (h : Keeps s s')
    (hw : WellKeyed pubKeyAddress s) : WellKeyed pubKeyAddress s' where
  keyed := h.keyed hw.keyed
  keys addr acc' pk h' hpk := by
    cases hs : getAccount s addr with
    | none =>
      rw [(h.new addr acc' h' hs).2] at hpk
      cases hpk
    | some acc =>
      obtain ⟨acc₂, h₂, ha⟩ := h.old addr acc hs
      rw [h'] at h₂
      cases h₂
      rw [Account.auth_eq_iff] at ha
      exact hw.keys addr acc pk hs (ha.2.2.2 ▸ hpk)

theorem Keeps.advances (h : Keeps s s') : Advances s s' fun _ => 0 := fun addr acc hs => by
  obtain ⟨acc', h', ha⟩ := h.old addr acc hs
  rw [Account.auth_eq_iff] at ha
  exact ⟨acc', h', ha.2.1, by simp [ha.2.2.1], fun pk hpk => ha.2.2.2.trans hpk⟩

theorem Advances.trans {n₁ n₂ : AccAddress → Nat} (h₁ : Advances s s' n₁)
    (h₂ : Advances s' s'' n₂) : Advances s s'' fun addr => n₁ addr + n₂ addr :=
  fun addr acc hs => by
    obtain ⟨acc', h', hn', hseq', hpk'⟩ := h₁ addr acc hs
    obtain ⟨acc'', h'', hn'', hseq'', hpk''⟩ := h₂ addr acc' h'
    refine ⟨acc'', h'', hn''.trans hn', ?_, fun pk hpk => hpk'' pk (hpk' pk hpk)⟩
    rw [hseq'', hseq', UInt64.ofNat_add, UInt64.add_assoc]

/-- Writing an account back with other coins or permissions keeps the store. -/
theorem keeps_setAccount (hk : Keyed s) {addr : AccAddress} {acc acc' : Account}
    (h : getAccount s addr = some acc) (ha : acc'.auth = acc.auth) :
    Keeps s (setAccount s acc') := by
  have hadr : acc'.address = addr := by
    have := congrArg Prod.fst ha
    exact this.trans (hk addr acc h)
  refine ⟨fun addr' acc₀ h₀ => ?_, fun addr' acc₀ h₀ hnone => ?_⟩
  · by_cases he : addr' = addr
    · subst he
      rw [h] at h₀
      cases h₀
      exact ⟨acc', by rw [getAccount_setAccount, if_pos hadr.symm], ha⟩
    · exact ⟨acc₀, by rw [getAccount_setAccount, if_neg (hadr ▸ he), h₀], rfl⟩
  · rw [getAccount_setAccount, if_neg (fun he => by rw [he, hadr, h] at hnone; cases hnone),
      hnone] at h₀
    cases h₀

/-- Adding an account under its address, without a key, keeps the store. -/
theorem keeps_setAccount_new {acc : Account} (h : getAccount s acc.address = none)
    (hpk : acc.pubKey = none) : Keeps s (setAccount s acc) := by
  refine ⟨fun addr acc₀ h₀ => ⟨acc₀, ?_, rfl⟩, fun addr acc₀ h₀ hnone => ?_⟩
  · rw [getAccount_setAccount, if_neg (fun he => by rw [he, h] at h₀; cases h₀), h₀]
  · rw [getAccount_setAccount] at h₀
    split_ifs at h₀ with he
    · cases h₀
      exact ⟨he.symm, hpk⟩
    · rw [hnone] at h₀
      cases h₀

theorem setAccount_setAccount (s : State) {acc acc' : Account} (h : acc.address = acc'.address) :
    setAccount (setAccount s acc) acc' = setAccount s acc' := by
  simp only [setAccount, h, AList.insert_insert]

theorem keeps_of_getAccount_eq (h : ∀ addr, getAccount s' addr = getAccount s addr) :
    Keeps s s' :=
  ⟨fun addr acc h₀ => ⟨acc, (h addr).trans h₀, rfl⟩,
    fun addr acc h₀ hnone => by rw [h addr, hnone] at h₀; cases h₀⟩

end Store

section Keepers

variable {toLower : String → String} {s s' : State}

theorem setCoins_keeps (hk : Keyed s) {addr : AccAddress} {amt : Coins}
    (h : setCoins toLower s addr amt = .ok s') : Keeps s s' := by
  unfold setCoins at h
  split_ifs at h with hv
  · cases hacc : getAccount s addr with
    | none =>
      -- `NewAccountWithAddress`
      simp only [hacc, newAccountWithAddress, getNextAccountNumber] at h
      cases h
      have hnext : Keeps s ⟨s.accounts, s.globalAccountNumber + 1⟩ :=
        keeps_of_getAccount_eq fun _ => rfl
      exact hnext.trans (keeps_setAccount_new hacc rfl)
    | some acc =>
      simp only [hacc] at h
      cases h
      exact keeps_setAccount hk hacc rfl

theorem subtractCoins_keeps (hk : Keyed s) {addr : AccAddress} {amt : Coins}
    (h : subtractCoins toLower s addr amt = .ok s') : Keeps s s' := by
  unfold subtractCoins at h
  split_ifs at h
  split at h
  · split at h
    · exact setCoins_keeps hk h
    · cases h
  · cases h
  · cases h

theorem addCoins_keeps (hk : Keyed s) {addr : AccAddress} {amt : Coins}
    (h : addCoins toLower s addr amt = .ok s') : Keeps s s' := by
  unfold addCoins at h
  split_ifs at h
  split at h
  · split_ifs at h
    exact setCoins_keeps hk h
  · cases h

theorem sendCoins_keeps (hk : Keyed s) {fromAddr toAddr : AccAddress} {amt : Coins}
    (h : sendCoins toLower s fromAddr toAddr amt = .ok s') : Keeps s s' := by
  obtain ⟨s₁, h₁, h₂⟩ := Check.bind_eq_ok.1 h
  have hk₁ := subtractCoins_keeps hk h₁
  exact hk₁.trans (addCoins_keeps (hk₁.keyed hk) h₂)

theorem getModuleAccount_keeps {addr : AccAddress} {permissions : List String} {acc : Account}
    (h : getModuleAccount s addr permissions = .ok (acc, s')) : Keeps s s' := by
  unfold getModuleAccount at h
  cases hacc : getAccount s addr with
  | none =>
    -- a new module account
    simp only [hacc, getNextAccountNumber] at h
    cases h
    have hnext : Keeps s ⟨s.accounts, s.globalAccountNumber + 1⟩ :=
      keeps_of_getAccount_eq fun _ => rfl
    exact hnext.trans (keeps_setAccount_new hacc rfl)
  | some acc₀ =>
    simp only [hacc] at h
    split_ifs at h
    cases h
    exact Keeps.refl s

theorem deductFees_keeps (hk : Keyed s) {feeCollector : AccAddress} {acc : Account}
    {fees : Coins} (h : deductFees toLower feeCollector s acc fees = .ok s') : Keeps s s' := by
  unfold deductFees at h
  split_ifs at h
  split at h
  · obtain ⟨⟨recipientAcc, s₁⟩, h₁, h₂⟩ := Check.bind_eq_ok.1 h
    have hk₁ := getModuleAccount_keeps h₁
    exact hk₁.trans (sendCoins_keeps (hk₁.keyed hk) h₂)
  · cases h
  · cases h

theorem Write.apply_keeps (hk : Keyed s) {w : Write} (h : w.apply toLower s = .ok s') :
    Keeps s s' := by
  cases w with
  | setCoins addr amt => exact setCoins_keeps hk h
  | newModuleAccount addr permissions =>
    cases hm : getModuleAccount s addr permissions with
    | error e => rw [Write.apply, hm] at h; cases h
    | ok r =>
      rw [Write.apply, hm] at h
      cases h
      exact getModuleAccount_keeps hm

theorem applyWrites_keeps (hk : Keyed s) {writes : List Write}
    (h : applyWrites toLower s writes = .ok s') : Keeps s s' := by
  induction writes generalizing s with
  | nil =>
    cases h
    exact Keeps.refl _
  | cons w writes ih =>
    rw [applyWrites, List.foldlM_cons] at h
    obtain ⟨s₁, h₁, h₂⟩ := Check.bind_eq_ok.1 h
    have hk₁ := Write.apply_keeps hk h₁
    exact hk₁.trans (ih (hk₁.keyed hk) h₂)

end Keepers

section Signatures

variable {Msg Sig : Type} {pubKeyAddress : PubKey → AccAddress}
  {verifyBytes : PubKey → StdSignDoc Msg → Sig → Bool}

/-- The key a signature is checked with: the account's, or the signature's when the account has
none and it hashes to the account's address. -/
def KeyOf (pubKeyAddress : PubKey → AccAddress) (acc : Account) (pk : PubKey) : Prop :=
  acc.pubKey = some pk ∨ (acc.pubKey = none ∧ pubKeyAddress pk = acc.address)

theorem processPubKey_ok {acc : Account} {sig : StdSignature Sig} {pk : PubKey}
    (h : processPubKey pubKeyAddress acc sig = .ok pk) : KeyOf pubKeyAddress acc pk := by
  unfold processPubKey at h
  cases hpk : acc.pubKey with
  | some pk' =>
    simp only [hpk] at h
    cases h
    exact .inl hpk
  | none =>
    cases hs : sig.pubKey with
    | none => simp only [hpk, hs] at h; cases h
    | some pk' =>
      simp only [hpk, hs] at h
      split_ifs at h with ha
      cases h
      exact .inr ⟨hpk, ha⟩

/-- A signature that `processSig` accepts verifies over the sign document with the account's key,
and the account comes back with that key and the next sequence. -/
theorem processSig_ok {acc acc' : Account} {sig : StdSignature Sig} {doc : StdSignDoc Msg}
    (h : processSig pubKeyAddress verifyBytes acc sig doc = .ok acc') :
    ∃ pk, KeyOf pubKeyAddress acc pk ∧ acc.permissions = none ∧
      verifyBytes pk doc sig.signature = true ∧
      acc' = { acc with pubKey := some pk, sequence := acc.sequence + 1 } := by
  obtain ⟨pk, hpk, h⟩ := Check.bind_eq_ok.1 h
  -- the checks after the key, in order: a module account, the key type, the signature
  cases hm : acc.permissions with
  | some _ => simp only [hm, Option.isSome_some, if_true] at h; cases h
  | none =>
    cases hg : defaultSigVerificationGasConsumer pk with
    | error e => simp only [hm, hg, Option.isSome_none, Bool.false_eq_true, if_false] at h; cases h
    | ok u =>
      cases hv : verifyBytes pk doc sig.signature with
      | false =>
        simp only [hm, hg, hv, Option.isSome_none, Bool.false_eq_true, if_false] at h
        cases h
      | true =>
        simp only [hm, hg, hv, Option.isSome_none, Bool.false_eq_true, if_false] at h
        cases h
        exact ⟨pk, processPubKey_ok hpk, rfl, hv, rfl⟩

theorem Keyed.setAccount {s : State} (hk : Keyed s) (acc : Account) :
    Keyed (setAccount s acc) := fun addr acc' h => by
  rw [getAccount_setAccount] at h
  split_ifs at h with he
  · cases h
    exact he.symm
  · exact hk addr acc' h

/-- The loop over the signers, with its signers all different: it changes no other account, and
each signer's account was read, its signature verified over the account's sign document with the
account's key, and written back with that key and the next sequence. -/
theorem processSigs_spec {chainID : String} {tx : StdTx Msg Sig} {isGenesis : Bool} :
    ∀ {l : List (AccAddress × StdSignature Sig)} {s s' : State}, Keyed s →
      (l.map Prod.fst).Nodup →
      processSigs pubKeyAddress verifyBytes chainID tx isGenesis s l = .ok s' →
      (∀ addr, addr ∉ l.map Prod.fst → getAccount s' addr = getAccount s addr) ∧
      ∀ addr sig, (addr, sig) ∈ l → ∃ acc pk, getAccount s addr = some acc ∧
        KeyOf pubKeyAddress acc pk ∧ acc.permissions = none ∧
        verifyBytes pk (getSignBytes chainID tx acc isGenesis) sig.signature = true ∧
        getAccount s' addr = some { acc with pubKey := some pk, sequence := acc.sequence + 1 }
  | [], s, s', _, _, h => by
    cases h
    exact ⟨fun _ _ => rfl, fun _ _ hm => nomatch hm⟩
  | (addr, sig) :: rest, s, s', hk, hnd, h => by
    cases hacc : getAccount s addr with
    | none => simp only [processSigs, hacc] at h; cases h
    | some acc =>
      simp only [processSigs, hacc] at h
      obtain ⟨acc', hps, hrest⟩ := Check.bind_eq_ok.1 h
      obtain ⟨pk, hkey, hperm, hv, rfl⟩ := processSig_ok hps
      have hadr : acc.address = addr := hk addr acc hacc
      rw [List.map_cons, List.nodup_cons] at hnd
      obtain ⟨hframe, hsigned⟩ := processSigs_spec (hk.setAccount _) hnd.2 hrest
      -- the accounts the rest of the loop does not write are those after this signer's write
      have hafter : ∀ a, a ∉ rest.map Prod.fst → getAccount s' a =
          if a = addr then some { acc with pubKey := some pk, sequence := acc.sequence + 1 }
          else getAccount s a := fun a ha => by
        rw [hframe a ha, getAccount_setAccount, hadr]
      refine ⟨fun a ha => ?_, fun a σ hm => ?_⟩
      · rw [List.map_cons, List.mem_cons, not_or] at ha
        rw [hafter a ha.2, if_neg ha.1]
      · rcases List.mem_cons.1 hm with he | hmr
        · cases he
          exact ⟨acc, pk, hacc, hkey, hperm, hv, by rw [hafter addr hnd.1, if_pos rfl]⟩
        · obtain ⟨acc₁, pk₁, h₁, hkey₁, hperm₁, hv₁, h₁'⟩ := hsigned a σ hmr
          have hne : a ≠ addr := by
            rintro rfl
            exact hnd.1 (List.mem_map.2 ⟨(a, σ), hmr, rfl⟩)
          rw [getAccount_setAccount, hadr, if_neg hne] at h₁
          exact ⟨acc₁, pk₁, h₁, hkey₁, hperm₁, hv₁, h₁'⟩

end Signatures

section Signers

variable {Msg : Type} (msgSigners : Msg → List AccAddress)

theorem getSigners_nodup (msgs : List Msg) : (getSigners msgSigners msgs).Nodup := by
  unfold getSigners
  -- the loop adds an address only when it is not there yet
  suffices h : ∀ (l signers : List AccAddress), signers.Nodup → (l.foldl
      (fun signers addr => if addr ∈ signers then signers else signers ++ [addr]) signers).Nodup from
    h _ [] List.nodup_nil
  intro l
  induction l with
  | nil => exact fun _ h => h
  | cons a l ih =>
    intro signers hnd
    rw [List.foldl_cons]
    apply ih
    split_ifs with ha
    · exact hnd
    · exact hnd.append (List.nodup_singleton a) (List.disjoint_singleton.2 ha)

end Signers

section Handler

variable {Msg Sig : Type} {toLower : String → String} {msgSigners : Msg → List AccAddress}
  {pubKeyAddress : PubKey → AccAddress} {verifyBytes : PubKey → StdSignDoc Msg → Sig → Bool}
  {feeCollector : Option AccAddress} {params : Params} {chainID : String} {height : Nat}
  {s s' : State} {tx : StdTx Msg Sig}

theorem validateBasic_ok {u : Unit} (h : tx.validateBasic msgSigners = .ok u) :
    tx.signatures.length = (getSigners msgSigners tx.msgs).length := by
  have hok : (tx.validateBasic msgSigners).isOk = true := by rw [h]; rfl
  simp only [StdTx.validateBasic, Check.isOk_ite_throw_bind, Check.isOk_ite_throw] at hok
  exact not_not.1 hok.2.2.2

/-- A pass of the ante handler: the fees leave every account's number, sequence and key as they
were, and then every signer goes through the signature loop. -/
theorem anteHandler_spec (hk : Keyed s)
    (h : anteHandler toLower msgSigners pubKeyAddress verifyBytes feeCollector params chainID height
      s tx = .ok s') :
    ∃ s₁, Keeps s s₁ ∧ tx.signatures.length = (getSigners msgSigners tx.msgs).length ∧
      processSigs pubKeyAddress verifyBytes chainID tx (height == 0) s₁
        ((getSigners msgSigners tx.msgs).zip tx.signatures) = .ok s' := by
  unfold anteHandler at h
  cases hf : feeCollector with
  | none => simp only [hf] at h; cases h
  | some feeAddr =>
    simp only [hf] at h
    obtain ⟨_, hcount, h⟩ := Check.bind_eq_ok.1 h
    obtain ⟨_, hbasic, h⟩ := Check.bind_eq_ok.1 h
    obtain ⟨_, -, h⟩ := Check.bind_eq_ok.1 h
    have hlen := validateBasic_ok hbasic
    -- the loop's first turn, on the store after the fees
    cases hz : (getSigners msgSigners tx.msgs).zip tx.signatures with
    | nil => simp only [hz] at h; cases h
    | cons p rest =>
      obtain ⟨addr₀, sig₀⟩ := p
      simp only [hz] at h
      cases hacc : getAccount s addr₀ with
      | none => simp only [hacc] at h; cases h
      | some acc₀ =>
        simp only [hacc] at h
        have hfirst : ∀ s₁ acc₁, getAccount s₁ addr₀ = some acc₁ →
            (processSig pubKeyAddress verifyBytes acc₁ sig₀
              (getSignBytes chainID tx acc₁ (height == 0)) >>= fun acc =>
                processSigs pubKeyAddress verifyBytes chainID tx (height == 0)
                  (setAccount s₁ acc) rest) = .ok s' →
            processSigs pubKeyAddress verifyBytes chainID tx (height == 0) s₁
              ((addr₀, sig₀) :: rest) = .ok s' := fun s₁ acc₁ h₁ h => by
          simp only [processSigs, h₁]
          exact h
        split_ifs at h with hzero
        · simp only [pure_bind] at h
          exact ⟨s, Keeps.refl s, hlen, hfirst s acc₀ hacc h⟩
        · obtain ⟨s₁, hfee, h⟩ := Check.bind_eq_ok.1 h
          rw [hk addr₀ acc₀ hacc] at h
          cases hacc₁ : getAccount s₁ addr₀ with
          | none => simp only [hacc₁] at h; cases h
          | some acc₁ =>
            simp only [hacc₁, pure_bind] at h
            exact ⟨s₁, deductFees_keeps hk hfee, hlen, hfirst s₁ acc₁ hacc₁ h⟩

theorem KeyOf.address (hw : WellKeyed pubKeyAddress s) {addr : AccAddress} {acc : Account}
    {pk : PubKey} (hs : getAccount s addr = some acc) (h : KeyOf pubKeyAddress acc pk) :
    pubKeyAddress pk = addr := by
  rcases h with hpk | ⟨-, ha⟩
  · exact hw.keys addr acc pk hs hpk
  · exact ha.trans (hw.keyed addr acc hs)

theorem KeyOf.eq {acc : Account} {pk k : PubKey} (h : KeyOf pubKeyAddress acc pk)
    (hk : acc.pubKey = some k) : pk = k := by
  rcases h with hpk | ⟨hpk, -⟩
  · rw [hk] at hpk
    exact (Option.some.inj hpk).symm
  · rw [hk] at hpk
    cases hpk

/-- A pass of the ante handler, as its signers see it: after the fees (`s₁`), each signer's
account had its signature verified over its sign document with a key hashing to its address,
and comes back with that key and the next sequence; no other account changes after the fees. -/
theorem anteHandler_loop (hw : WellKeyed pubKeyAddress s)
    (h : anteHandler toLower msgSigners pubKeyAddress verifyBytes feeCollector params chainID height
      s tx = .ok s') :
    ∃ s₁, Keeps s s₁ ∧ WellKeyed pubKeyAddress s₁ ∧
      (∀ addr, addr ∉ getSigners msgSigners tx.msgs → getAccount s' addr = getAccount s₁ addr) ∧
      (∀ addr ∈ getSigners msgSigners tx.msgs,
        ∃ sig, (addr, sig) ∈ (getSigners msgSigners tx.msgs).zip tx.signatures) ∧
      (∀ sig ∈ tx.signatures,
        ∃ addr, (addr, sig) ∈ (getSigners msgSigners tx.msgs).zip tx.signatures) ∧
      ∀ addr sig, (addr, sig) ∈ (getSigners msgSigners tx.msgs).zip tx.signatures →
        ∃ acc pk, getAccount s₁ addr = some acc ∧ pubKeyAddress pk = addr ∧
          (∀ k, acc.pubKey = some k → pk = k) ∧
          verifyBytes pk (getSignBytes chainID tx acc (height == 0)) sig.signature = true ∧
          getAccount s' addr = some { acc with pubKey := some pk, sequence := acc.sequence + 1 } := by
  obtain ⟨s₁, hkeep, hlen, hloop⟩ := anteHandler_spec hw.keyed h
  have hw₁ := hkeep.wellKeyed hw
  have hfst : ((getSigners msgSigners tx.msgs).zip tx.signatures).map Prod.fst =
      getSigners msgSigners tx.msgs := List.map_fst_zip hlen.ge
  have hsnd : ((getSigners msgSigners tx.msgs).zip tx.signatures).map Prod.snd =
      tx.signatures := List.map_snd_zip hlen.le
  obtain ⟨hframe, hsigned⟩ :=
    processSigs_spec hw₁.keyed (by rw [hfst]; exact getSigners_nodup msgSigners tx.msgs) hloop
  refine ⟨s₁, hkeep, hw₁, fun addr ha => hframe addr (by rw [hfst]; exact ha), fun addr ha => ?_,
    fun sig hm => ?_, fun addr sig hm => ?_⟩
  · obtain ⟨⟨addr', sig⟩, hm, rfl⟩ := List.mem_map.1 (by rw [hfst]; exact ha)
    exact ⟨sig, hm⟩
  · obtain ⟨⟨addr, sig'⟩, hz, rfl⟩ := List.mem_map.1 (by rw [hsnd]; exact hm)
    exact ⟨addr, hz⟩
  · obtain ⟨acc, pk, hs, hkey, -, hv, hs'⟩ := hsigned addr sig hm
    exact ⟨acc, pk, hs, hkey.address hw₁ hs, fun k hk => hkey.eq hk, hv, hs'⟩

/-- A pass of the ante handler adds one to the sequence of each signer and leaves every other
account's number, sequence and key as they were; every key it stores hashes to its account. -/
theorem anteHandler_sequence (hw : WellKeyed pubKeyAddress s)
    (h : anteHandler toLower msgSigners pubKeyAddress verifyBytes feeCollector params chainID height
      s tx = .ok s') :
    WellKeyed pubKeyAddress s' ∧
      Advances s s' fun addr => if addr ∈ getSigners msgSigners tx.msgs then 1 else 0 := by
  obtain ⟨s₁, hkeep, hw₁, hframe, hpaired, -, hsigned⟩ := anteHandler_loop hw h
  refine ⟨⟨fun addr acc' h' => ?_, fun addr acc' k h' hk => ?_⟩, fun addr acc hs => ?_⟩
  · by_cases ha : addr ∈ getSigners msgSigners tx.msgs
    · obtain ⟨sig, hm⟩ := hpaired addr ha
      obtain ⟨acc, pk, hs, -, -, -, hs'⟩ := hsigned addr sig hm
      rw [h'] at hs'
      cases hs'
      exact hw₁.keyed addr acc hs
    · exact hw₁.keyed addr acc' (hframe addr ha ▸ h')
  · by_cases ha : addr ∈ getSigners msgSigners tx.msgs
    · obtain ⟨sig, hm⟩ := hpaired addr ha
      obtain ⟨acc, pk, -, hpk, -, -, hs'⟩ := hsigned addr sig hm
      rw [h'] at hs'
      cases hs'
      cases hk
      exact hpk
    · exact hw₁.keys addr acc' k (hframe addr ha ▸ h') hk
  · obtain ⟨acc₁, h₁, ha₁⟩ := hkeep.old addr acc hs
    rw [Account.auth_eq_iff] at ha₁
    by_cases ha : addr ∈ getSigners msgSigners tx.msgs
    · -- a signer: the loop read the account the fees left
      obtain ⟨sig, hm⟩ := hpaired addr ha
      obtain ⟨acc₂, pk, h₂, -, hpk, -, hs'⟩ := hsigned addr sig hm
      rw [h₁] at h₂
      cases h₂
      refine ⟨_, hs', ha₁.2.1, ?_, fun k hk => ?_⟩
      · simp only [if_pos ha, ha₁.2.2.1]
        rfl
      · rw [hpk k (ha₁.2.2.2.trans hk)]
    · refine ⟨acc₁, (hframe addr ha).trans h₁, ha₁.2.1, ?_, fun k hk => ha₁.2.2.2.trans hk⟩
      simp [if_neg ha, ha₁.2.2.1]

end Handler

section Runs

variable {Msg Sig : Type} {env : Env Msg Sig} {c c' : Chain}

theorem Advances.congr {s s' : State} {n m : AccAddress → Nat} (h : Advances s s' n)
    (hn : ∀ addr, n addr = m addr) : Advances s s' m := by
  rwa [show n = m from funext hn] at h

theorem deliverTx_of_ok {s : State} {tx : StdTx Msg Sig} (hw : WellKeyed env.pubKeyAddress s)
    (hante : env.ante c.height c.state tx = .ok s) (msgWrites : List Write) :
    Keeps s (deliverTx env c tx msgWrites).state := by
  cases happly : applyWrites env.toLower s msgWrites with
  | error e =>
    simp only [deliverTx, hante, happly]
    exact Keeps.refl s
  | ok s' =>
    simp only [deliverTx, hante, happly]
    exact applyWrites_keeps hw.keyed happly

theorem deliverTx_sequence (hw : WellKeyed env.pubKeyAddress c.state) (tx : StdTx Msg Sig)
    (msgWrites : List Write) :
    WellKeyed env.pubKeyAddress (deliverTx env c tx msgWrites).state ∧
      Advances c.state (deliverTx env c tx msgWrites).state
        fun addr => if signs env c addr (.deliverTx tx msgWrites) then 1 else 0 := by
  cases hante : env.ante c.height c.state tx with
  | error e =>
    -- a failed ante handler writes nothing
    simp only [deliverTx, hante]
    refine ⟨hw, (Keeps.refl c.state).advances.congr fun addr => ?_⟩
    simp [signs, hante, Except.isOk, Except.toBool]
  | ok s =>
    obtain ⟨hw₁, hadv⟩ := anteHandler_sequence hw hante
    have hsigns : ∀ addr, (if addr ∈ getSigners env.msgSigners tx.msgs then 1 else 0) + 0 =
        if signs env c addr (.deliverTx tx msgWrites) then 1 else 0 := fun addr => by
      simp [signs, hante, Except.isOk, Except.toBool]
    have hkeep := deliverTx_of_ok hw₁ hante msgWrites
    exact ⟨hkeep.wellKeyed hw₁, (hadv.trans hkeep.advances).congr hsigns⟩

/-- One step of a run keeps every key matched to its address, and moves each account's sequence
on by one when the step is a pass that it signs. -/
theorem step_sequence (hw : WellKeyed env.pubKeyAddress c.state) {e : Event Msg Sig}
    (h : step env c e = some c') :
    WellKeyed env.pubKeyAddress c'.state ∧
      Advances c.state c'.state fun addr => if signs env c addr e then 1 else 0 := by
  cases e with
  | deliverTx tx msgWrites =>
    cases h
    exact deliverTx_sequence hw tx msgWrites
  | endBlock writes =>
    simp only [step, endBlock] at h
    split at h
    · rename_i s happly
      cases h
      have hkeep := applyWrites_keeps hw.keyed happly
      exact ⟨hkeep.wellKeyed hw, hkeep.advances.congr fun addr => by simp [signs]⟩
    · cases h

/-- Over a run, each account's sequence moves on by the number of passes it signs. -/
theorem run_sequence : ∀ {es : List (Event Msg Sig)} {c c' : Chain},
    WellKeyed env.pubKeyAddress c.state → run env c es = some c' →
    WellKeyed env.pubKeyAddress c'.state ∧ Advances c.state c'.state fun addr => passes env addr c es
  | [], c, c', hw, h => by
    cases h
    exact ⟨hw, (Keeps.refl c.state).advances.congr fun _ => rfl⟩
  | e :: es, c, c', hw, h => by
    cases hstep : step env c e with
    | none => simp [run, hstep] at h
    | some c₁ =>
      simp only [run, hstep, Option.bind_some] at h
      obtain ⟨hw₁, hadv₁⟩ := step_sequence hw hstep
      obtain ⟨hw', hadv'⟩ := run_sequence hw₁ h
      exact ⟨hw', (hadv₁.trans hadv').congr fun addr => by simp [passes, hstep]⟩

end Runs

section Replay

variable {Msg Sig : Type}

/-- An ideal signature scheme, as `verifyBytes` sees it: a signature verifies for one sign
document only, and only under keys that hash to one address. -/
def IdealVerify (pubKeyAddress : PubKey → AccAddress)
    (verifyBytes : PubKey → StdSignDoc Msg → Sig → Bool) : Prop :=
  ∀ pk pk' doc doc' σ, verifyBytes pk doc σ = true → verifyBytes pk' doc' σ = true →
    pubKeyAddress pk = pubKeyAddress pk' ∧ doc = doc'

/-- A `uint64` sequence comes back to where it was only after `2 ^ 64` increments. -/
theorem add_one_add_ne_self (a : UInt64) {k : Nat} (hk : k + 1 < 2 ^ 64) :
    a + 1 + UInt64.ofNat k ≠ a := by
  intro h
  have hk' : (UInt64.ofNat k).toNat = k := UInt64.toNat_ofNat_of_lt' (by
    rw [UInt64.size]
    omega)
  have h' := congrArg UInt64.toNat h
  rw [UInt64.toNat_add, UInt64.toNat_add, hk', UInt64.toNat_one] at h'
  have ha := a.toNat_lt
  omega

variable {env : Env Msg Sig} {c c' : Chain} {s : State} {tx tx' : StdTx Msg Sig}
  {msgWrites : List Write} {events : List (Event Msg Sig)}

theorem ante_replay_rejected (hideal : IdealVerify env.pubKeyAddress env.verifyBytes)
    (hw : WellKeyed env.pubKeyAddress c.state) (hpass : env.ante c.height c.state tx = .ok s)
    (hrun : run env (deliverTx env c tx msgWrites) events = some c')
    {addr : AccAddress} {sig : StdSignature Sig}
    (hsig : (addr, sig) ∈ (getSigners env.msgSigners tx.msgs).zip tx.signatures)
    (hfew : passes env addr (deliverTx env c tx msgWrites) events + 1 < 2 ^ 64)
    {sig' : StdSignature Sig} (hsig' : sig' ∈ tx'.signatures)
    (hsame : sig'.signature = sig.signature) :
    (env.ante c'.height c'.state tx').isOk = false := by
  -- the pass: `addr` signed the document of its account `acc` and left with the next sequence
  obtain ⟨s₁, -, -, -, -, -, hsigned⟩ := anteHandler_loop hw hpass
  obtain ⟨acc, pk, -, hpk, -, hv, hs⟩ := hsigned addr sig hsig
  have hws := (anteHandler_sequence hw hpass).1
  obtain ⟨acc₁, hs₁, ha₁⟩ := (deliverTx_of_ok hws hpass msgWrites).old addr _ hs
  -- the rest of the run moves that sequence on by the passes `addr` signs
  obtain ⟨hw', hadv⟩ := run_sequence (deliverTx_sequence hw tx msgWrites).1 hrun
  obtain ⟨acc', hs', -, hseq', -⟩ := hadv addr acc₁ hs₁
  rw [Account.auth_eq_iff] at ha₁
  rw [ha₁.2.2.1] at hseq'
  cases hante : env.ante c'.height c'.state tx' with
  | error e => rfl
  | ok s₂ =>
    exfalso
    -- a later pass with the same signature verified it for some signer `addr'`
    obtain ⟨s₃, hkeep₃, -, -, -, hpaired', hsigned'⟩ := anteHandler_loop hw' hante
    obtain ⟨addr', hm'⟩ := hpaired' sig' hsig'
    obtain ⟨acc₃, pk₃, hs₃, hpk₃, -, hv₃, -⟩ := hsigned' addr' sig' hm'
    obtain ⟨hadr, hdoc⟩ := hideal pk pk₃ _ _ sig.signature hv (hsame ▸ hv₃)
    rw [hpk, hpk₃] at hadr
    subst hadr
    -- that signer is `addr`, whose account the fees of the later pass left as the run did
    obtain ⟨acc₄, hs₄, ha₄⟩ := hkeep₃.old addr acc' hs'
    rw [hs₃] at hs₄
    cases hs₄
    rw [Account.auth_eq_iff] at ha₄
    have hseq : acc.sequence = acc₃.sequence := congrArg StdSignDoc.sequence hdoc
    rw [ha₄.2.2.1, hseq'] at hseq
    exact add_one_add_ne_self acc.sequence hfew hseq.symm

end Replay

section OneSigner

/-- The sign document of a chain's one signer, at sequence `q`. -/
def replayDoc (q : UInt64) : StdSignDoc Unit := ⟨0, "barkis", ⟨[], 0⟩, "", [()], q⟩

/-- The signer's transaction at sequence `q`: one message, no fee, and the ideal signature of
`replayDoc q`, the signer's address with the document. -/
def replayTx (q : UInt64) : StdTx Unit (AccAddress × StdSignDoc Unit) :=
  ⟨[()], ⟨[], 0⟩, [⟨none, ([7], replayDoc q)⟩], ""⟩

/-- A chain whose every message is signed by `[7]`, whose keys all hash to `[7]`, and whose
signatures are ideal: a signature is the signer's address with the document it signs. -/
def replayEnv : Env Unit (AccAddress × StdSignDoc Unit) where
  toLower := id
  msgSigners _ := [[7]]
  pubKeyAddress _ := [7]
  verifyBytes _ doc σ := decide (σ = ([7], doc))
  feeCollector := some [9]
  params := ⟨256, 7⟩
  chainID := "barkis"

/-- The store holding only the signer, with its key and sequence `q`. -/
def replayState (q : UInt64) : State :=
  setAccount ⟨∅, 1⟩ ⟨[7], [], some (.secp256k1 [7]), 0, q, none⟩

theorem replayEnv_ante (height : Nat) (q : UInt64) :
    replayEnv.ante height (replayState q) (replayTx q) = .ok (replayState (q + 1)) := by
  simp [Env.ante, anteHandler, replayEnv, replayState, replayTx, replayDoc, validateSigCount,
    StdTx.validateBasic, validateMemo, getSigners, maxGasWanted, Coins.isAnyNegative,
    CoinSet.isAnyNegative, Coins.isZero, processSig, processPubKey, getSignBytes,
    defaultSigVerificationGasConsumer, processSigs, setAccount_setAccount]
  rfl

/-- `n` transactions of the signer, at sequences `q`, `q + 1`, …. -/
def replays : Nat → UInt64 → List (Event Unit (AccAddress × StdSignDoc Unit))
  | 0, _ => []
  | n + 1, q => .deliverTx (replayTx q) [] :: replays n (q + 1)

theorem deliverTx_replayTx (height : Nat) (q : UInt64) :
    deliverTx replayEnv ⟨replayState q, height⟩ (replayTx q) [] = ⟨replayState (q + 1), height⟩ := by
  simp only [deliverTx, replayEnv_ante]
  rfl

/-- Each of the signer's transactions passes in turn. -/
theorem run_replays (height : Nat) : ∀ (n : Nat) (q : UInt64),
    run replayEnv ⟨replayState q, height⟩ (replays n q) =
        some ⟨replayState (q + UInt64.ofNat n), height⟩ ∧
      passes replayEnv [7] ⟨replayState q, height⟩ (replays n q) = n
  | 0, q => ⟨by simp [replays, run], rfl⟩
  | n + 1, q => by
    obtain ⟨hrun, hpasses⟩ := run_replays height n (q + 1)
    have hq : q + 1 + UInt64.ofNat n = q + UInt64.ofNat (n + 1) := by
      rw [UInt64.ofNat_add, UInt64.add_assoc, UInt64.add_comm 1]
      rfl
    refine ⟨?_, ?_⟩
    · simp only [replays, run, step, deliverTx_replayTx, Option.bind_some, hrun, hq]
    · simp only [replays, passes, step, deliverTx_replayTx, hpasses, signs, replayEnv_ante]
      simp [replayEnv, getSigners, replayTx, Except.isOk, Except.toBool, Nat.add_comm]

theorem idealVerify_replayEnv : IdealVerify replayEnv.pubKeyAddress replayEnv.verifyBytes :=
  fun _ _ doc doc' σ h h' => by
    simp only [replayEnv, decide_eq_true_eq] at h h'
    exact ⟨rfl, (Prod.mk.inj (h.symm.trans h')).2⟩

theorem wellKeyed_replayState (q : UInt64) : WellKeyed replayEnv.pubKeyAddress (replayState q) where
  keyed addr acc h := by
    simp only [replayState, getAccount_setAccount] at h
    split_ifs at h with he
    · cases h
      exact he.symm
    · cases h
  keys addr acc pk h _ := by
    simp only [replayState, getAccount_setAccount] at h
    split_ifs at h with he
    · exact he.symm
    · cases h

end OneSigner

section Protection

variable {Msg Sig : Type} {env : Env Msg Sig} {c : Chain} {s : State} {tx : StdTx Msg Sig}

theorem ante_replay_protection (hideal : IdealVerify env.pubKeyAddress env.verifyBytes)
    (hw : WellKeyed env.pubKeyAddress c.state) (hpass : env.ante c.height c.state tx = .ok s) :
    Advances c.state s (fun addr => if addr ∈ getSigners env.msgSigners tx.msgs then 1 else 0) ∧
    ∀ msgWrites events c', run env (deliverTx env c tx msgWrites) events = some c' →
      Advances (deliverTx env c tx msgWrites).state c'.state
        (fun addr => passes env addr (deliverTx env c tx msgWrites) events) ∧
      ∀ addr sig, (addr, sig) ∈ (getSigners env.msgSigners tx.msgs).zip tx.signatures →
        passes env addr (deliverTx env c tx msgWrites) events + 1 < 2 ^ 64 →
        ∀ (tx' : StdTx Msg Sig) (sig' : StdSignature Sig), sig' ∈ tx'.signatures →
          sig'.signature = sig.signature → (env.ante c'.height c'.state tx').isOk = false := by
  refine ⟨(anteHandler_sequence hw hpass).2, fun msgWrites events c' hrun => ⟨?_, ?_⟩⟩
  · exact (run_sequence (deliverTx_sequence hw tx msgWrites).1 hrun).2
  · intro addr sig hsig hfew tx' sig' hsig' hsame
    exact ante_replay_rejected hideal hw hpass hrun hsig hfew hsig' hsame

theorem ante_replay_protection_replayTx :
    replayEnv.ante 1 (replayState 0) (replayTx 0) = .ok (replayState 1) ∧
      ∀ c', run replayEnv (deliverTx replayEnv ⟨replayState 0, 1⟩ (replayTx 0) []) (replays 3 1) =
        some c' → (replayEnv.ante c'.height c'.state (replayTx 0)).isOk = false := by
  have hpass : replayEnv.ante (Chain.height ⟨replayState 0, 1⟩) (Chain.state ⟨replayState 0, 1⟩)
      (replayTx 0) = .ok (replayState 1) := replayEnv_ante 1 0
  refine ⟨hpass, fun c' hrun => ?_⟩
  have hpasses : passes replayEnv [7] (deliverTx replayEnv ⟨replayState 0, 1⟩ (replayTx 0) [])
      (replays 3 1) = 3 := by
    rw [deliverTx_replayTx]
    exact (run_replays 1 3 1).2
  exact (ante_replay_protection idealVerify_replayEnv (wellKeyed_replayState 0) hpass).2 [] _ c'
    hrun |>.2 [7] _ (List.mem_singleton_self _) (by rw [hpasses]; decide) (replayTx 0) _
    (List.mem_singleton_self _) rfl

/-- The same transaction passes again once its signer has passed `2 ^ 64 - 1` more times: the
sequence has wrapped back to the one it signed. -/
theorem replay_after_wrap :
    (replayEnv.ante 1 (replayState 0) (replayTx 0)).isOk = true ∧
      ∃ c', run replayEnv (deliverTx replayEnv ⟨replayState 0, 1⟩ (replayTx 0) [])
          (replays (2 ^ 64 - 1) 1) = some c' ∧
        passes replayEnv [7] (deliverTx replayEnv ⟨replayState 0, 1⟩ (replayTx 0) [])
          (replays (2 ^ 64 - 1) 1) = 2 ^ 64 - 1 ∧
        (replayEnv.ante c'.height c'.state (replayTx 0)).isOk = true := by
  obtain ⟨hrun, hpasses⟩ := run_replays 1 (2 ^ 64 - 1) 1
  have hwrap : (1 : UInt64) + UInt64.ofNat (2 ^ 64 - 1) = 0 := by decide
  rw [hwrap] at hrun
  rw [deliverTx_replayTx]
  exact ⟨by rw [replayEnv_ante]; rfl, _, hrun, hpasses, by rw [replayEnv_ante]; rfl⟩

end Protection

end Barkis.Auth.Ante
