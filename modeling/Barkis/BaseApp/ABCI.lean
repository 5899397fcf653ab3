import Barkis.BaseApp.RunTx

/-!
# The ABCI calls of `BaseApp`

`baseapp/baseapp.go`. Tendermint drives the application by `InitChain`, then per block
`BeginBlock`, `DeliverTx` for each transaction, `EndBlock` and `Commit`, while `CheckTx` for the
mempool comes at any time. The application keeps the committed store (`cms`), the version of its
last commit, the consensus params, and two states: the check state, a cache of the committed store
that `CheckTx` writes, and the deliver state, a cache that the block writes and `Commit` writes
back. Stores are values, as in `runTx`: a cache is the store it refines.

The context of a state has one gas meter, infinite (`sdk.NewContext`), and every call on the state
charges it: the check state's is shared by the `CheckTx` calls up to the next `Commit`, the deliver
state's by the blockers and the transactions of a block, from `InitChain` on for the first block.
A transaction's gas goes to it unless the ante handler gives the transaction's context a new one.

A panic of an ABCI call or of a blocker stops the node; `run` stops at it, with its message.

* `run_filter_checkTx`: `CheckTx` never reaches consensus. Take `CheckTx` calls out of any
  successful run, wherever they stand: the other calls answer alike and leave everything but the
  check state as it was.
* `run_block`: a block (`BeginBlock` at the next height, `DeliverTx` of its transactions,
  `EndBlock`, `Commit`) commits exactly the begin blocker, the transactions in order and the end
  blocker on the store and gas meter of the deliver state it starts from (`applyBlock`), advances
  the height by one, and resets the check state to the new committed store; a panic of a blocker
  stops the run there.
-/

namespace Barkis.Baseapp

/-- `abci.Header`: its height and time (in nanoseconds). -/
structure Header where
  height : Int
  time : Nat
deriving DecidableEq, Repr

/-- `abci.BlockParams`: its `MaxGas`. -/
structure BlockParams where
  maxGas : Int
deriving DecidableEq, Repr

/-- `abci.ConsensusParams`: its `Block`. -/
structure ConsensusParams where
  block : Option BlockParams
deriving DecidableEq, Repr

/-- `abci.RequestInitChain`: its genesis time, consensus params and app state. -/
structure RequestInitChain where
  time : Nat
  consensusParams : Option ConsensusParams
  appStateBytes : List UInt8
deriving DecidableEq, Repr

/-- `abci.Validator`: its address and voting power. -/
structure Validator where
  address : List UInt8
  power : Int
deriving DecidableEq, Repr

/-- `abci.VoteInfo`: a validator of the last commit and whether it signed. -/
structure VoteInfo where
  validator : Validator
  signedLastBlock : Bool
deriving DecidableEq, Repr

/-- `abci.Evidence`: its type, the validator, and the height and time of the misbehaviour. -/
structure Evidence where
  type : String
  validator : Validator
  height : Int
  time : Nat
deriving DecidableEq, Repr

/-- `abci.RequestBeginBlock`: the header, the votes of the last commit (`LastCommitInfo.Votes`)
and the evidence of misbehaviour. -/
structure RequestBeginBlock where
  header : Header
  votes : List VoteInfo
  byzantineValidators : List Evidence
deriving DecidableEq, Repr

/-- `abci.RequestEndBlock`. -/
structure RequestEndBlock where
  height : Int
deriving DecidableEq, Repr

/-- `abci.ValidatorUpdate`: a validator's public key and new power. -/
structure ValidatorUpdate where
  pubKey : List UInt8
  power : Int
deriving DecidableEq, Repr

/-- `state`: the store of its cache, and its context's header, gas meter and block gas meter
(`nil` until set). -/
structure TxState (σ : Type) where
  ms : σ
  header : Header
  gasMeter : GasMeter
  blockGasMeter : Option GasMeter
deriving DecidableEq

/-- The fields of `BaseApp` that the ABCI calls change: the committed store, the version of its
last commit (`LastBlockHeight`), the consensus params, and the check and deliver states (`nil`
when unset). -/
structure AppState (σ : Type) where
  cms : σ
  lastBlockHeight : Int
  consensusParams : Option ConsensusParams
  checkState : Option (TxState σ)
  deliverState : Option (TxState σ)
deriving DecidableEq

/-- A blocker (`InitChainer`, `BeginBlocker`, `EndBlocker`) on the deliver state's context, given
as its store, gas meter and header, and on the request: the store and gas meter it leaves and its
response, or its panic. No blocker of the repository reads the block gas meter. -/
abbrev Blocker (σ Req Res : Type) := σ → GasMeter → Header → Req → Except String (σ × GasMeter × Res)

/-- What the ABCI calls read of an application besides `runTx`'s: its transaction decoder (an
error is its code), its blockers, and the write of the consensus params to the main store. The
check of the validators `InitChainer` returns against the request's is left out. -/
structure AbciApp (σ Tx Msg : Type) extends BaseApp σ Tx Msg where
  txDecoder : List UInt8 → Except CodeType Tx
  initChainer : Option (Blocker σ RequestInitChain Unit)
  beginBlocker : Option (Blocker σ RequestBeginBlock Unit)
  endBlocker : Option (Blocker σ RequestEndBlock (List ValidatorUpdate))
  storeConsensusParams : σ → ConsensusParams → σ

/-- The panic of a call on a `nil` state or block gas meter. -/
def nilPointerPanic : String := "runtime error: invalid memory address or nil pointer dereference"

variable {σ Tx Msg : Type}

/-- `sdk.NewContext` on a cache of `ms`: an infinite gas meter and no block gas meter. -/
def TxState.new (ms : σ) (header : Header) : TxState σ := ⟨ms, header, .infinite 0, none⟩

/-- `setCheckState`: a new context on a cache of the committed store. -/
def setCheckState (a : AppState σ) (header : Header) : AppState σ :=
  { a with checkState := some (.new a.cms header) }

/-- `setDeliverState`: a new context on a cache of the committed store. -/
def setDeliverState (a : AppState σ) (header : Header) : AppState σ :=
  { a with deliverState := some (.new a.cms header) }

/-- `getMaximumBlockGas`: `0` for no limit. -/
def getMaximumBlockGas : Option ConsensusParams → Except String Gas
  | none => .ok 0
  | some ⟨none⟩ => .ok 0
  | some ⟨some ⟨maxGas⟩⟩ =>
    if maxGas < -1 then .error s!"invalid maximum block gas: {maxGas}"
    else if maxGas = -1 then .ok 0
    else .ok maxGas.toNat.toUInt64

/-- The block gas meter `BeginBlock` sets: basic with the maximum block gas, infinite without. -/
def newBlockGasMeter (maxGas : Gas) : GasMeter :=
  if 0 < maxGas then .basic maxGas 0 else .infinite 0

/-- `validateHeight`: the error for a block that is not the one after the last commit. -/
def validateHeight (lastBlockHeight : Int) (header : Header) : Option String :=
  if header.height < 1 then some s!"invalid height: {header.height}"
  else if header.height ≠ lastBlockHeight + 1 then
    some s!"invalid height: {header.height}; expected: {lastBlockHeight + 1}"
  else none

variable (app : AbciApp σ Tx Msg)

/-- The call of the begin blocker, if the application has one. -/
def runBeginBlocker (ms : σ) (g : GasMeter) (req : RequestBeginBlock) :
    Except String (σ × GasMeter) :=
  match app.beginBlocker with
  | none => .ok (ms, g)
  | some beginBlocker => (beginBlocker ms g req.header req).map fun r => (r.1, r.2.1)

/-- The call of the end blocker, if the application has one: no validator updates without. -/
def runEndBlocker (ms : σ) (g : GasMeter) (header : Header) (req : RequestEndBlock) :
    Except String (σ × GasMeter × List ValidatorUpdate) :=
  match app.endBlocker with
  | none => .ok (ms, g, [])
  | some endBlocker => endBlocker ms g header req

/-- `InitChain`: the consensus params go to the main store of the committed store, both states
are set at the genesis header, and the init chainer writes the deliver state, whose context gets
an infinite block gas meter. -/
def initChain (a : AppState σ) (req : RequestInitChain) : Except String (AppState σ) :=
  let a := match req.consensusParams with
    | none => a
    | some cp => { a with consensusParams := some cp, cms := app.storeConsensusParams a.cms cp }
  let initHeader : Header := ⟨0, req.time⟩
  let a := setCheckState (setDeliverState a initHeader) initHeader
  match app.initChainer with
  | none => .ok a
  -- the deliver state was just set to a new context on `cms`
  | some initChainer =>
    (initChainer a.cms (.infinite 0) initHeader req).map fun r =>
      { a with deliverState := some ⟨r.1, initHeader, r.2.1, some (.infinite 0)⟩ }

/-- `BeginBlock`: the height is checked, the deliver state set (or, after `InitChain`, its
context given the block's header), a new block gas meter added, and the begin blocker called. -/
def beginBlock (a : AppState σ) (req : RequestBeginBlock) : Except String (AppState σ) :=
  match validateHeight a.lastBlockHeight req.header with
  | some err => .error err
  | none =>
    let ds := match a.deliverState with
      | none => TxState.new a.cms req.header
      | some ds => { ds with header := req.header }
    match getMaximumBlockGas a.consensusParams with
    | .error err => .error err
    | .ok maxGas =>
      let ds := { ds with blockGasMeter := some (newBlockGasMeter maxGas) }
      (runBeginBlocker app ds.ms ds.gasMeter req).map fun r =>
        { a with deliverState := some { ds with ms := r.1, gasMeter := r.2 } }

/-- `CheckTx`: the decoder's error, or `runTx` in check mode on the check state, which keeps what
it writes and charges. -/
def checkTx (a : AppState σ) (txBytes : List UInt8) : Except String (AppState σ × Result) :=
  match app.txDecoder txBytes with
  | .error code => .ok (a, ⟨code, 0, 0⟩)
  | .ok tx =>
    match a.checkState with
    | none => .error nilPointerPanic
    | some cs =>
      -- the block gas meter is not read in check mode
      let r := runTx app.toBaseApp .check cs.ms cs.gasMeter (cs.blockGasMeter.getD (.infinite 0)) tx
      .ok ({ a with checkState := some { cs with ms := r.store, gasMeter := r.gasMeter } }, r.result)

/-- `DeliverTx`: the decoder's error, or `runTx` in deliver mode on the deliver state, which
keeps what it writes and charges and the block gas meter it leaves. -/
def deliverTx (a : AppState σ) (txBytes : List UInt8) : Except String (AppState σ × Result) :=
  match app.txDecoder txBytes with
  | .error code => .ok (a, ⟨code, 0, 0⟩)
  | .ok tx =>
    match a.deliverState with
    | none => .error nilPointerPanic
    | some ds =>
      match ds.blockGasMeter with
      | none => .error nilPointerPanic
      | some blockGasMeter =>
        let r := runTx app.toBaseApp .deliver ds.ms ds.gasMeter blockGasMeter tx
        let ds :=
          { ds with ms := r.store, gasMeter := r.gasMeter, blockGasMeter := some r.blockGasMeter }
        .ok ({ a with deliverState := some ds }, r.result)

/-- `EndBlock`: the end blocker on the deliver state, and its validator updates. -/
def endBlock (a : AppState σ) (req : RequestEndBlock) :
    Except String (AppState σ × List ValidatorUpdate) :=
  match a.deliverState with
  | none => .error nilPointerPanic
  | some ds =>
    (runEndBlocker app ds.ms ds.gasMeter ds.header req).map fun r =>
      ({ a with deliverState := some { ds with ms := r.1, gasMeter := r.2.1 } }, r.2.2)

/-- `Commit`: the deliver state is written back and committed as the next version, the check
state reset to it at the block's header, and the deliver state emptied. -/
def commit (a : AppState σ) : Except String (AppState σ) :=
  match a.deliverState with
  | none => .error nilPointerPanic
  | some ds =>
    .ok { setCheckState { a with cms := ds.ms, lastBlockHeight := a.lastBlockHeight + 1 } ds.header with
      deliverState := none }

/-- An ABCI request. -/
inductive Request
  | initChain (req : RequestInitChain)
  | beginBlock (req : RequestBeginBlock)
  | checkTx (tx : List UInt8)
  | deliverTx (tx : List UInt8)
  | endBlock (req : RequestEndBlock)
  | commit
deriving DecidableEq, Repr

/-- An ABCI response: the result of a transaction, or the validator updates of `EndBlock`. -/
inductive Response
  | initChain
  | beginBlock
  | checkTx (r : Result)
  | deliverTx (r : Result)
  | endBlock (validatorUpdates : List ValidatorUpdate)
  | commit
deriving DecidableEq, Repr

/-- The state and response after one request, or the panic that stops the node. -/
def step (a : AppState σ) : Request → Except String (AppState σ × Response)
  | .initChain req => (initChain app a req).map fun a => (a, .initChain)
  | .beginBlock req => (beginBlock app a req).map fun a => (a, .beginBlock)
  | .checkTx tx => (checkTx app a tx).map fun r => (r.1, .checkTx r.2)
  | .deliverTx tx => (deliverTx app a tx).map fun r => (r.1, .deliverTx r.2)
  | .endBlock req => (endBlock app a req).map fun r => (r.1, .endBlock r.2)
  | .commit => (commit a).map fun a => (a, .commit)

/-- The requests in order, up to the first panic. -/
def run : AppState σ → List Request → Except String (AppState σ × List Response)
  | a, [] => .ok (a, [])
  | a, req :: reqs =>
    match step app a req with
    | .error e => .error e
    | .ok (a', r) =>
      match run a' reqs with
      | .error e => .error e
      | .ok (a'', rs) => .ok (a'', r :: rs)

/-- `CodeTxDecode`. -/
def codeTxDecode : CodeType := 2

/-- `counterApp` with a decoder that turns the empty transaction away, a begin blocker that adds
`10` and charges 5 gas, and no other hooks. -/
def counterAbciApp : AbciApp Nat Unit Unit :=
  { counterApp with
    txDecoder := fun txBytes => if txBytes = [] then .error codeTxDecode else .ok ()
    initChainer := none
    beginBlocker := some fun s g _ _ => .ok (s + 10, (g.consumeGas 5 "ReadFlat").1, ())
    endBlocker := none
    storeConsensusParams := fun s _ => s }

/-! ## `CheckTx` and consensus -/

theorem map_eq_ok_iff {ε α β : Type} {e : Except ε α} {f : α → β} {y : β} :
    e.map f = .ok y ↔ ∃ x, e = .ok x ∧ f x = y := by
  cases e <;> simp [Except.map]

/-- The state without its check state: all that the calls of a block read. -/
def AppState.withoutCheck (a : AppState σ) : AppState σ := { a with checkState := none }

/-- `CheckTx` requests. -/
def Request.isCheckTx : Request → Bool
  | .initChain _ => false
  | .beginBlock _ => false
  | .checkTx _ => true
  | .deliverTx _ => false
  | .endBlock _ => false
  | .commit => false

/-- `CheckTx` responses. -/
def Response.isCheckTx : Response → Bool
  | .initChain => false
  | .beginBlock => false
  | .checkTx _ => true
  | .deliverTx _ => false
  | .endBlock _ => false
  | .commit => false

theorem run_cons_eq_ok {a a' : AppState σ} {req : Request} {reqs : List Request}
    {rs : List Response} :
    run app a (req :: reqs) = .ok (a', rs) ↔
      ∃ a₁ r rs₁, step app a req = .ok (a₁, r) ∧ run app a₁ reqs = .ok (a', rs₁) ∧ rs = r :: rs₁ := by
  constructor
  · intro h
    simp only [run] at h
    split at h
    · cases h
    · next a₁ r h₁ =>
      split at h
      · cases h
      · next a₂ rs₁ h₂ =>
        cases h
        exact ⟨a₁, r, rs₁, h₁, h₂, rfl⟩
  · rintro ⟨a₁, r, rs₁, h₁, h₂, rfl⟩
    simp only [run, h₁, h₂]

/-- `CheckTx` writes the check state only. -/
theorem checkTx_withoutCheck {a a' : AppState σ} {txBytes : List UInt8} {r : Result}
    (h : checkTx app a txBytes = .ok (a', r)) : a'.withoutCheck = a.withoutCheck := by
  unfold checkTx at h
  split at h
  · cases h; rfl
  · split at h
    · cases h
    · cases h; rfl

theorem initChain_withoutCheck (a : AppState σ) (req : RequestInitChain) :
    initChain app a.withoutCheck req = initChain app a req := by
  unfold initChain
  cases req.consensusParams <;> cases app.initChainer <;> rfl

theorem commit_withoutCheck (a : AppState σ) : commit a.withoutCheck = commit a := by
  rcases a with ⟨cms, n, cp, cs, _ | ds⟩ <;> rfl

theorem beginBlock_withoutCheck (a : AppState σ) (req : RequestBeginBlock) :
    beginBlock app a.withoutCheck req = (beginBlock app a req).map AppState.withoutCheck := by
  rcases a with ⟨cms, n, cp, cs, _ | ds⟩ <;>
    dsimp only [beginBlock, AppState.withoutCheck] <;>
    cases validateHeight n req.header <;> cases getMaximumBlockGas cp <;> try rfl
  -- the begin blocker reads no check state
  all_goals
    generalize runBeginBlocker app _ _ req = e
    cases e <;> rfl

theorem deliverTx_withoutCheck (a : AppState σ) (txBytes : List UInt8) :
    deliverTx app a.withoutCheck txBytes =
      (deliverTx app a txBytes).map fun p => (p.1.withoutCheck, p.2) := by
  rcases a with ⟨cms, n, cp, cs, _ | ⟨ms, header, g, _ | blockGasMeter⟩⟩ <;>
    dsimp only [deliverTx, AppState.withoutCheck] <;> cases app.txDecoder txBytes <;> rfl

theorem endBlock_withoutCheck (a : AppState σ) (req : RequestEndBlock) :
    endBlock app a.withoutCheck req =
      (endBlock app a req).map fun p => (p.1.withoutCheck, p.2) := by
  rcases a with ⟨cms, n, cp, cs, _ | ds⟩ <;> dsimp only [endBlock, AppState.withoutCheck]
  · rfl
  · cases runEndBlocker app ds.ms ds.gasMeter ds.header req <;> rfl

/-- Every call but `CheckTx` reads no check state: on a state without it, it answers alike and
leaves the same state but for the check state. -/
theorem step_withoutCheck (a : AppState σ) {req : Request} (hreq : req.isCheckTx = false) :
    (step app a.withoutCheck req).map (fun p => (p.1.withoutCheck, p.2)) =
      (step app a req).map (fun p => (p.1.withoutCheck, p.2)) := by
  cases req with
  | initChain r => simp only [step, initChain_withoutCheck]
  | beginBlock r =>
    simp only [step, beginBlock_withoutCheck]
    cases beginBlock app a r <;> rfl
  | checkTx txBytes => cases hreq
  | deliverTx txBytes =>
    simp only [step, deliverTx_withoutCheck]
    cases deliverTx app a txBytes <;> rfl
  | endBlock r =>
    simp only [step, endBlock_withoutCheck]
    cases endBlock app a r <;> rfl
  | commit => simp only [step, commit_withoutCheck]

/-- A step answers a `CheckTx` request exactly with a `CheckTx` response. -/
theorem isCheckTx_of_step {a a' : AppState σ} {req : Request} {r : Response}
    (h : step app a req = .ok (a', r)) : r.isCheckTx = req.isCheckTx := by
  cases req <;>
  · simp only [step] at h
    obtain ⟨x, -, hx⟩ := map_eq_ok_iff.1 h
    cases hx
    rfl

/-- A `CheckTx` step leaves all but the check state. -/
theorem withoutCheck_of_step_checkTx {a a₁ : AppState σ} {req : Request} {r : Response}
    (hreq : req.isCheckTx = true) (h : step app a req = .ok (a₁, r)) :
    a₁.withoutCheck = a.withoutCheck := by
  cases req
  case checkTx txBytes =>
    obtain ⟨⟨a₂, r₂⟩, hc, hx⟩ := map_eq_ok_iff.1 h
    cases hx
    exact checkTx_withoutCheck app hc
  all_goals cases hreq

/-- `CheckTx` never reaches consensus. From two states that differ in their check states only,
a successful run, and the same requests without the `CheckTx` ones wherever they stand, answer
every other request alike and end in states that differ in their check states only. -/
theorem run_filter_checkTx (reqs : List Request) :
    ∀ (a b a' : AppState σ) (rs : List Response), a.withoutCheck = b.withoutCheck →
      run app a reqs = .ok (a', rs) →
      ∃ b', run app b (reqs.filter fun req => !req.isCheckTx) =
          .ok (b', rs.filter fun r => !r.isCheckTx) ∧ b'.withoutCheck = a'.withoutCheck := by
  induction reqs with
  | nil =>
    intro a b a' rs hab h
    cases h
    exact ⟨b, rfl, hab.symm⟩
  | cons req reqs ih =>
    intro a b a' rs hab h
    obtain ⟨a₁, r, rs₁, h₁, h₂, rfl⟩ := (run_cons_eq_ok app).1 h
    have hr := isCheckTx_of_step app h₁
    cases hreq : req.isCheckTx
    · -- a request of the block: `b` takes the same step
      have hstep : (step app b req).map (fun p => (p.1.withoutCheck, p.2)) =
          .ok (a₁.withoutCheck, r) := by
        rw [← step_withoutCheck app b hreq, ← hab, step_withoutCheck app a hreq, h₁]
        rfl
      obtain ⟨⟨b₁, r₁⟩, hb₁, hbr⟩ := map_eq_ok_iff.1 hstep
      obtain ⟨hb, rfl⟩ := Prod.mk.inj hbr
      obtain ⟨b', hrun, hb'⟩ := ih a₁ b₁ a' rs₁ hb.symm h₂
      refine ⟨b', ?_, hb'⟩
      rw [List.filter_cons_of_pos (by simp [hreq]), List.filter_cons_of_pos (by simp [hr, hreq])]
      exact (run_cons_eq_ok app).2 ⟨b₁, r₁, _, hb₁, hrun, rfl⟩
    · -- a `CheckTx`: dropped from the second run, and it left the rest of the state
      have ha := withoutCheck_of_step_checkTx app hreq h₁
      obtain ⟨b', hrun, hb'⟩ := ih a₁ b a' rs₁ (ha.trans hab) h₂
      refine ⟨b', ?_, hb'⟩
      rw [List.filter_cons_of_neg (by simp [hreq]), List.filter_cons_of_neg (by simp [hr, hreq])]
      exact hrun

theorem run_filter_checkTx_counter :
    ∃ a' rs, run counterAbciApp ⟨0, 0, none, none, none⟩
        [.initChain ⟨0, none, []⟩, .checkTx [1], .beginBlock ⟨⟨1, 0⟩, [], []⟩, .deliverTx [1],
          .checkTx [], .endBlock ⟨1⟩, .commit] = .ok (a', rs) ∧
      ∃ b', run counterAbciApp ⟨0, 0, none, some ⟨7, ⟨3, 0⟩, .infinite 4, none⟩, none⟩
          ([.initChain ⟨0, none, []⟩, .checkTx [1], .beginBlock ⟨⟨1, 0⟩, [], []⟩, .deliverTx [1],
            .checkTx [], .endBlock ⟨1⟩, .commit].filter fun req => !req.isCheckTx) =
          .ok (b', rs.filter fun r => !r.isCheckTx) ∧ b'.withoutCheck = a'.withoutCheck :=
  ⟨_, _, rfl, run_filter_checkTx counterAbciApp _ _ _ _ _ rfl rfl⟩

/-! ## A block -/

/-- `DeliverTx` of one transaction on the deliver state's store, gas meter and block gas meter:
the decoded transaction's `runTx` in deliver mode, or the decoder's error. -/
def deliverTxResult (ms : σ) (g blockGasMeter : GasMeter) (txBytes : List UInt8) : TxOut σ :=
  match app.txDecoder txBytes with
  | .error code => ⟨ms, g, blockGasMeter, ⟨code, 0, 0⟩⟩
  | .ok tx => runTx app.toBaseApp .deliver ms g blockGasMeter tx

/-- The transactions of a block in order, each on what the one before left: the store, gas meter
and block gas meter after them, and their results. -/
def deliverBlockTxs : σ → GasMeter → GasMeter → List (List UInt8) →
    σ × GasMeter × GasMeter × List Result
  | ms, g, blockGasMeter, [] => (ms, g, blockGasMeter, [])
  | ms, g, blockGasMeter, txBytes :: txs =>
    let r := deliverTxResult app ms g blockGasMeter txBytes
    let rs := deliverBlockTxs r.store r.gasMeter r.blockGasMeter txs
    (rs.1, rs.2.1, rs.2.2.1, r.result :: rs.2.2.2)

/-- A block on the store and gas meter it starts from: the begin blocker, the transactions with a
new block gas meter, then the end blocker. The store and gas meter it leaves, the results of its
transactions and the end blocker's validator updates, or the panic of a blocker. -/
def applyBlock (ms : σ) (g : GasMeter) (req : RequestBeginBlock) (maxGas : Gas)
    (txs : List (List UInt8)) (reqEnd : RequestEndBlock) :
    Except String (σ × GasMeter × List Result × List ValidatorUpdate) := do
  let (ms, g) ← runBeginBlocker app ms g req
  let r := deliverBlockTxs app ms g (newBlockGasMeter maxGas) txs
  let (ms, g, updates) ← runEndBlocker app r.1 r.2.1 req.header reqEnd
  pure (ms, g, r.2.2.2, updates)

/-- The store a block starts from: the deliver state's after `InitChain`, else the committed
store. -/
def AppState.blockStore (a : AppState σ) : σ := (a.deliverState.map TxState.ms).getD a.cms

/-- The gas meter a block starts with: the deliver state's after `InitChain`, else a new one. -/
def AppState.blockGas (a : AppState σ) : GasMeter :=
  (a.deliverState.map TxState.gasMeter).getD (.infinite 0)

theorem run_cons_of_step {a a₁ : AppState σ} {req : Request} {r : Response}
    (h : step app a req = .ok (a₁, r)) (reqs : List Request) :
    run app a (req :: reqs) = (run app a₁ reqs).map fun p => (p.1, r :: p.2) := by
  simp only [run, h]
  cases run app a₁ reqs <;> rfl

theorem run_cons_of_step_error {a : AppState σ} {req : Request} {e : String}
    (h : step app a req = .error e) (reqs : List Request) : run app a (req :: reqs) = .error e := by
  simp only [run, h]

/-- A `BeginBlock` at the next height, with valid consensus params, sets the deliver state on the
store and gas meter it starts from, and calls the begin blocker there. -/
theorem beginBlock_of_valid {a : AppState σ} {req : RequestBeginBlock} {maxGas : Gas}
    (hheight : req.header.height = a.lastBlockHeight + 1) (hpos : 0 ≤ a.lastBlockHeight)
    (hgas : getMaximumBlockGas a.consensusParams = .ok maxGas) :
    beginBlock app a req = (runBeginBlocker app a.blockStore a.blockGas req).map fun r =>
      { a with deliverState := some ⟨r.1, req.header, r.2, some (newBlockGasMeter maxGas)⟩ } := by
  have hv : validateHeight a.lastBlockHeight req.header = none := by
    unfold validateHeight
    rw [if_neg (by omega), if_neg (by omega)]
  rcases a with ⟨cms, n, cp, cs, _ | ds⟩ <;> dsimp only at hv hgas <;>
    dsimp only [beginBlock] <;> rw [hv] <;> dsimp only <;> rw [hgas] <;> rfl

theorem deliverTx_of_deliverState {a : AppState σ} {ms : σ} {header : Header}
    {g blockGasMeter : GasMeter} (hds : a.deliverState = some ⟨ms, header, g, some blockGasMeter⟩)
    (txBytes : List UInt8) :
    deliverTx app a txBytes =
      .ok ({ a with deliverState := some ⟨(deliverTxResult app ms g blockGasMeter txBytes).store,
          header, (deliverTxResult app ms g blockGasMeter txBytes).gasMeter,
          some (deliverTxResult app ms g blockGasMeter txBytes).blockGasMeter⟩ },
        (deliverTxResult app ms g blockGasMeter txBytes).result) := by
  rcases a with ⟨cms, n, cp, cs, ds⟩
  cases hds
  unfold deliverTx deliverTxResult
  cases app.txDecoder txBytes <;> rfl

/-- The `DeliverTx` requests of a block run its transactions in order on the deliver state. -/
theorem run_deliverTxs (txs : List (List UInt8)) :
    ∀ (a : AppState σ) (ms : σ) (header : Header) (g blockGasMeter : GasMeter),
      a.deliverState = some ⟨ms, header, g, some blockGasMeter⟩ →
      run app a (txs.map .deliverTx) =
        .ok ({ a with deliverState := some ⟨(deliverBlockTxs app ms g blockGasMeter txs).1, header,
            (deliverBlockTxs app ms g blockGasMeter txs).2.1,
            some (deliverBlockTxs app ms g blockGasMeter txs).2.2.1⟩ },
          (deliverBlockTxs app ms g blockGasMeter txs).2.2.2.map .deliverTx) := by
  induction txs with
  | nil =>
    intro a ms header g blockGasMeter hds
    rcases a with ⟨cms, n, cp, cs, ds⟩
    cases hds
    rfl
  | cons txBytes txs ih =>
    intro a ms header g blockGasMeter hds
    have hstep : step app a (.deliverTx txBytes) = .ok ({ a with
        deliverState := some ⟨(deliverTxResult app ms g blockGasMeter txBytes).store, header,
          (deliverTxResult app ms g blockGasMeter txBytes).gasMeter,
          some (deliverTxResult app ms g blockGasMeter txBytes).blockGasMeter⟩ },
        .deliverTx (deliverTxResult app ms g blockGasMeter txBytes).result) := by
      simp only [step, deliverTx_of_deliverState app hds]
      rfl
    rw [List.map_cons, run_cons_of_step app hstep, ih _ _ _ _ _ rfl]
    rfl

theorem run_append {a a₁ : AppState σ} {reqs₁ : List Request} {rs₁ : List Response}
    (h : run app a reqs₁ = .ok (a₁, rs₁)) (reqs₂ : List Request) :
    run app a (reqs₁ ++ reqs₂) = (run app a₁ reqs₂).map fun p => (p.1, rs₁ ++ p.2) := by
  induction reqs₁ generalizing a rs₁ with
  | nil =>
    cases h
    rw [List.nil_append]
    cases run app a₁ reqs₂ <;> rfl
  | cons req reqs₁ ih =>
    obtain ⟨a₂, r, rs₂, h₁, h₂, rfl⟩ := (run_cons_eq_ok app).1 h
    rw [List.cons_append, run_cons_of_step app h₁, ih h₂]
    cases run app a₁ reqs₂ <;> rfl

/-- A block at the next height, with valid consensus params, commits the begin blocker, its
transactions in order and the end blocker on the store and gas meter it starts from, one height
up; the check state is reset to the new committed store and the deliver state emptied. A panic of
a blocker stops the run with it. -/
theorem run_block {a : AppState σ} {req : RequestBeginBlock} {maxGas : Gas}
    (hheight : req.header.height = a.lastBlockHeight + 1) (hpos : 0 ≤ a.lastBlockHeight)
    (hgas : getMaximumBlockGas a.consensusParams = .ok maxGas) (txs : List (List UInt8))
    (reqEnd : RequestEndBlock) :
    run app a (.beginBlock req :: txs.map .deliverTx ++ [.endBlock reqEnd, .commit]) =
      (applyBlock app a.blockStore a.blockGas req maxGas txs reqEnd).map fun r =>
        (⟨r.1, a.lastBlockHeight + 1, a.consensusParams, some (.new r.1 req.header), none⟩,
          .beginBlock :: r.2.2.1.map .deliverTx ++ [.endBlock r.2.2.2, .commit]) := by
  have hbegin := beginBlock_of_valid app hheight hpos hgas
  unfold applyBlock
  cases hb : runBeginBlocker app a.blockStore a.blockGas req with
  | error e =>
    -- the begin blocker panics
    rw [hb] at hbegin
    exact run_cons_of_step_error app (by simp [step, hbegin, Except.map]) _
  | ok p =>
    obtain ⟨ms₁, g₁⟩ := p
    rw [hb] at hbegin
    have hstep : step app a (.beginBlock req) =
        .ok ({ a with deliverState := some ⟨ms₁, req.header, g₁, some (newBlockGasMeter maxGas)⟩ },
          .beginBlock) := by
      simp [step, hbegin, Except.map]
    rw [List.cons_append, run_cons_of_step app hstep,
      run_append app (run_deliverTxs app txs _ _ _ _ _ rfl)]
    -- the end blocker on what the transactions left, then the commit
    cases he : runEndBlocker app (deliverBlockTxs app ms₁ g₁ (newBlockGasMeter maxGas) txs).1
        (deliverBlockTxs app ms₁ g₁ (newBlockGasMeter maxGas) txs).2.1 req.header reqEnd with
    | error e => simp [run, step, endBlock, he, bind, Except.bind, Except.map]
    | ok q =>
      simp [run, step, endBlock, commit, setCheckState, TxState.new, he, bind, Except.bind, pure,
        Except.pure, Except.map]

theorem run_block_counter :
    (⟨⟨1, 0⟩, [], []⟩ : RequestBeginBlock).header.height =
        (⟨5, 0, none, none, some ⟨5, ⟨0, 0⟩, .infinite 7, some (.infinite 0)⟩⟩ : AppState Nat).lastBlockHeight + 1 ∧
      run counterAbciApp ⟨5, 0, none, none, some ⟨5, ⟨0, 0⟩, .infinite 7, some (.infinite 0)⟩⟩
        (.beginBlock ⟨⟨1, 0⟩, [], []⟩ :: [[1], []].map .deliverTx ++ [.endBlock ⟨1⟩, .commit]) =
      (applyBlock counterAbciApp 5 (.infinite 7) ⟨⟨1, 0⟩, [], []⟩ 0 [[1], []] ⟨1⟩).map fun r =>
        (⟨r.1, 0 + 1, none, some (.new r.1 ⟨1, 0⟩), none⟩,
          .beginBlock :: r.2.2.1.map .deliverTx ++ [.endBlock r.2.2.2, .commit]) :=
  ⟨by decide, run_block counterAbciApp (by decide) (by decide) rfl [[1], []] ⟨1⟩⟩

end Barkis.Baseapp
