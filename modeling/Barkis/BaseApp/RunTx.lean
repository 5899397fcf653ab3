import Barkis.Store.Gas

/-!
# `BaseApp.runTx`

`baseapp/baseapp.go`. A transaction runs on the store of its mode's state: first the ante handler
on a cache of it, written back unless the ante handler aborts; then the messages on a second
cache, written back in deliver mode when every message passes. Two deferred calls end it: in
deliver mode the transaction's gas is charged to the block gas meter, which may panic; then a
panic is recovered into an error result.

Stores are values: a cache-wrapped store is modelled by the store it refines (`cachekv`), so
`msCache.Write()` replaces the store by the cache's. Handlers are any functions of the store and
the gas meter, and their panics are values (`Panic`).

* `reach`: how far a transaction gets in deliver mode, from the ante handler's store
  (`anteStore`) and the messages' effects in order (`applyMsgs`).
* `runTx_store`: the store after `runTx` is the one `reach` gives: unchanged, the ante handler's,
  or the ante handler's followed by every message.
* `runTx_of_reach_msgs`: when every message passes, its writes stay, and the result is OK exactly
  when the block gas meter takes the transaction's gas (`consumeBlockGas_basic_eq_none_iff`);
  `runTx_blockGas_after_write` is a transaction whose writes stay while its result is an
  out-of-gas error. `runTx_of_reach_ante`: when a message fails, only the ante handler's writes
  stay and the result is an error.
-/

namespace Barkis.Baseapp

/-- `runTxMode`. -/
inductive RunTxMode
  | check
  | simulate
  | deliver
deriving DecidableEq, Repr

/-- `sdk.CodeType`. -/
abbrev CodeType := UInt32

/-- `CodeOK`. -/
def codeOK : CodeType := 0

/-- `CodeInternal`. -/
def codeInternal : CodeType := 1

/-- `CodeUnknownRequest`. -/
def codeUnknownRequest : CodeType := 6

/-- `CodeOutOfGas`. -/
def codeOutOfGas : CodeType := 12

/-- `CodeUnsupportedMsg`. -/
def codeUnsupportedMsg : CodeType := 18

/-- A panic: one of a gas meter, or any other value. -/
inductive Panic
  | gas (e : GasError)
  | other
deriving DecidableEq, Repr

/-- `sdk.Result`: its code and gas fields. -/
structure Result where
  code : CodeType
  gasWanted : Gas
  gasUsed : Gas
deriving DecidableEq, Repr

/-- `Result.IsOK`. -/
def Result.isOK (r : Result) : Bool := r.code == codeOK

/-- What the ante handler returns: the new gas meter of the context it returns (`SetGasMeter`),
`none` for a zero context or one that keeps the meter it was given; the store its cache holds; its
result; and whether to abort. -/
structure AnteOut (σ : Type) where
  gasMeter : Option GasMeter
  store : σ
  result : Result
  abort : Bool

/-- `sdk.AnteHandler`, on the store and gas meter of its context, a transaction and `simulate`:
the meter it was given, after what it charged to it (a context shares its meter with the state it
comes from), and what it returned or the panic it raised. -/
abbrev AnteHandler (σ Tx : Type) := σ → GasMeter → Tx → Bool → GasMeter × Except Panic (AnteOut σ)

/-- `sdk.Handler`, on the store and gas meter of its context and a message: the gas meter after
it, and the store its cache holds with its result, or the panic it raised. -/
abbrev Handler (σ Msg : Type) := σ → GasMeter → Msg → GasMeter × Except Panic (σ × Result)

/-- What `runTx` reads of a `BaseApp`, of its transactions and of their messages; an error is its
code. -/
structure BaseApp (σ Tx Msg : Type) where
  anteHandler : Option (AnteHandler σ Tx)
  router : String → Option (Handler σ Msg)
  getMsgs : Tx → List Msg
  route : Msg → String
  msgType : Msg → String
  validateBasic : Msg → Option CodeType
  /-- `sdk.GlobalUpgradeMgr.MsgCheck`. -/
  msgCheck : String → Bool

variable {σ Tx Msg : Type} (app : BaseApp σ Tx Msg)

/-- `checkNewMsgsUpgradeHeight`. -/
def checkNewMsgsUpgradeHeight (msgs : List Msg) : Option CodeType :=
  if msgs.all fun msg => app.msgCheck (app.msgType msg) then none else some codeUnsupportedMsg

/-- `validateBasicTxMsgs`: a transaction without messages, or the first failing `ValidateBasic`. -/
def validateBasicTxMsgs : List Msg → Option CodeType
  | [] => some codeUnknownRequest
  | msgs => msgs.findSome? app.validateBasic

/-- `runMsgs`, from the store of its cache and the context's gas meter: the messages run in order
until one fails, their handlers skipped in check mode. The gas meter after, and the store and the
code of the failing message (`codeOK` if none), or the panic of a handler. -/
def runMsgs (mode : RunTxMode) : σ → GasMeter → List Msg → GasMeter × Except Panic (σ × CodeType)
  | s, g, [] => (g, .ok (s, codeOK))
  | s, g, msg :: msgs =>
    match app.router (app.route msg) with
    | none => (g, .ok (s, codeUnknownRequest))
    | some handler =>
      if mode = .check then runMsgs mode s g msgs
      else
        match handler s g msg with
        | (g', .error p) => (g', .error p)
        | (g', .ok (s', r)) => if r.isOK then runMsgs mode s' g' msgs else (g', .ok (s', r.code))

/-- Where the body of `runTx` ends: the store of the mode's state, the gas meter of the
transaction's context and that of the state's context (one meter, unless the ante handler gave the
transaction a new one), `gasWanted`, and the result returned or the panic raised. -/
structure BodyOut (σ : Type) where
  store : σ
  gasMeter : GasMeter
  stateGasMeter : GasMeter
  gasWanted : Gas
  outcome : Except Panic Result

/-- The messages' part of `runTx`: `runMsgs` on a cache of `ms`, written back in deliver mode
when every message passes. -/
def runTxMsgs (mode : RunTxMode) (ms : σ) (g : GasMeter) (gasWanted : Gas) (msgs : List Msg) :
    BodyOut σ :=
  match runMsgs app mode ms g msgs with
  | (g', .error p) => ⟨ms, g', g', gasWanted, .error p⟩
  | (g', .ok (s', code)) =>
    if mode = .deliver ∧ code = codeOK then
      ⟨s', g', g', gasWanted, .ok ⟨code, gasWanted, g'.gasConsumed⟩⟩
    else ⟨ms, g', g', gasWanted, .ok ⟨code, gasWanted, g'.gasConsumed⟩⟩

/-- The body of `runTx` once its deferred calls are set: the checks of the messages, then the ante
handler on a cache of `ms`, written back unless it aborts, then the messages. -/
def runTxBody (mode : RunTxMode) (ms : σ) (g : GasMeter) (tx : Tx) : BodyOut σ :=
  match checkNewMsgsUpgradeHeight app (app.getMsgs tx) <|> validateBasicTxMsgs app (app.getMsgs tx) with
  | some code => ⟨ms, g, g, 0, .ok ⟨code, 0, 0⟩⟩
  | none =>
    match app.anteHandler with
    | none => runTxMsgs app mode ms g 0 (app.getMsgs tx)
    | some anteHandler =>
      match anteHandler ms g tx (mode == .simulate) with
      | (g₁, .error p) => ⟨ms, g₁, g₁, 0, .error p⟩
      | (g₁, .ok out) =>
        -- `ctx = newCtx.WithMultiStore(ms)` when the ante handler returned a context; the state's
        -- context keeps `g₁`, which the messages go on charging unless the context has a new meter
        if out.abort then ⟨ms, out.gasMeter.getD g₁, g₁, out.result.gasWanted, .ok out.result⟩
        else
          let body := runTxMsgs app mode out.store (out.gasMeter.getD g₁) out.result.gasWanted
            (app.getMsgs tx)
          match out.gasMeter with
          | none => body
          | some _ => { body with stateGasMeter := g₁ }

/-- The deferred charge of the block: in deliver mode the block gas meter consumes the
transaction's gas up to its limit, and a consumption below where it started panics. -/
def consumeBlockGas (mode : RunTxMode) (startingGas : Gas) (blockGasMeter g : GasMeter) :
    GasMeter × Option Panic :=
  if mode = .deliver then
    match blockGasMeter.consumeGas g.gasConsumedToLimit "block gas meter" with
    | (bg, some e) => (bg, some (.gas e))
    | (bg, none) =>
      (bg, if bg.gasConsumed < startingGas then some (.gas (.gasOverflow "tx gas summation")) else none)
  else (blockGasMeter, none)

/-- The deferred `recover`: a panic becomes an error result, and the gas fields are set. -/
def recoverResult (gasWanted : Gas) (g : GasMeter) : Except Panic Result → Result
  | .ok r => { r with gasWanted := gasWanted, gasUsed := g.gasConsumed }
  | .error (.gas (.outOfGas _)) => ⟨codeOutOfGas, gasWanted, g.gasConsumed⟩
  | .error _ => ⟨codeInternal, gasWanted, g.gasConsumed⟩

/-- What `runTx` leaves: the store of the mode's state, the gas meter of the state's context, the
block gas meter, and the result. -/
structure TxOut (σ : Type) where
  store : σ
  gasMeter : GasMeter
  blockGasMeter : GasMeter
  result : Result

/-- `runTx` on the store `ms` of the mode's state, the gas meter `g` of the state's context and the
block gas meter. In simulate mode the context is a cache that is never written, but its gas meter
is the state's. -/
def runTx (mode : RunTxMode) (ms : σ) (g blockGasMeter : GasMeter) (tx : Tx) : TxOut σ :=
  -- only run the tx if there is block gas remaining
  if mode = .deliver ∧ blockGasMeter.isOutOfGas = true then
    ⟨ms, g, blockGasMeter, ⟨codeOutOfGas, 0, 0⟩⟩
  else
    let body := runTxBody app mode ms g tx
    let startingGas := if mode = .deliver then blockGasMeter.gasConsumed else 0
    let charged := consumeBlockGas mode startingGas blockGasMeter body.gasMeter
    -- a panic of the deferred charge replaces what the body returned
    let outcome := match charged.2 with
      | some p => .error p
      | none => body.outcome
    ⟨if mode = .simulate then ms else body.store, body.stateGasMeter, charged.1,
      recoverResult body.gasWanted body.gasMeter outcome⟩

/-! ## How far a transaction gets -/

/-- The messages' effects in order, with the gas meter after them: each message has a route, and
its handler neither panics nor fails. -/
def applyMsgs : σ → GasMeter → List Msg → Option (σ × GasMeter)
  | s, g, [] => some (s, g)
  | s, g, msg :: msgs =>
    match app.router (app.route msg) with
    | none => none
    | some handler =>
      match handler s g msg with
      | (g', .ok (s', r)) => if r.isOK then applyMsgs s' g' msgs else none
      | (_, .error _) => none

/-- The store after the ante handler and the context's gas meter, `none` when it panics or
aborts; without an ante handler, the store as it was. -/
def anteStore (ms : σ) (g : GasMeter) (tx : Tx) (simulate : Bool) : Option (σ × GasMeter) :=
  match app.anteHandler with
  | none => some (ms, g)
  | some anteHandler =>
    match anteHandler ms g tx simulate with
    | (g₁, .ok out) => if out.abort then none else some (out.store, out.gasMeter.getD g₁)
    | (_, .error _) => none

/-- How far a transaction gets: turned away before any write, past the ante handler with the store
it wrote, or past every message with the store and gas meter they leave. -/
inductive Reach (σ : Type)
  | rejected
  | ante (s : σ)
  | msgs (s : σ) (g : GasMeter)
deriving DecidableEq

/-- The store a transaction leaves by how far it gets, from the store `ms` it started on. -/
def Reach.store (ms : σ) : Reach σ → σ
  | rejected => ms
  | ante s => s
  | msgs s _ => s

/-- How far a transaction that passes its checks gets in deliver mode. -/
def reachBody (ms : σ) (g : GasMeter) (tx : Tx) : Reach σ :=
  if (checkNewMsgsUpgradeHeight app (app.getMsgs tx) <|>
      validateBasicTxMsgs app (app.getMsgs tx)).isSome then .rejected
  else
    match anteStore app ms g tx false with
    | none => .rejected
    | some (s1, g1) =>
      match applyMsgs app s1 g1 (app.getMsgs tx) with
      | some (s2, g2) => .msgs s2 g2
      | none => .ante s1

/-- How far a transaction gets in deliver mode: nowhere once the block's gas is used up. -/
def reach (ms : σ) (g blockGasMeter : GasMeter) (tx : Tx) : Reach σ :=
  if blockGasMeter.isOutOfGas = true then .rejected else reachBody app ms g tx

/-! ## `runTx` in deliver mode -/

/-- What the body of `runTx` shows of how far the transaction got: the store it keeps, and an
outcome that is not OK when a message failed, or the messages' gas meter and an OK outcome when
every message passed. The state's gas meter is not read. -/
def BodyOut.EndsAt (body : BodyOut σ) (ms : σ) : Reach σ → Prop
  | .rejected => body.store = ms
  | .ante s1 => body.store = s1 ∧ ∀ r, body.outcome = .ok r → r.isOK = false
  | .msgs s2 g2 => body.store = s2 ∧ body.gasMeter = g2 ∧
      ∃ w, body.outcome = .ok ⟨codeOK, w, g2.gasConsumed⟩

theorem BodyOut.endsAt_stateGasMeter (body : BodyOut σ) (ms : σ) (g : GasMeter) (r : Reach σ) :
    ({ body with stateGasMeter := g } : BodyOut σ).EndsAt ms r ↔ body.EndsAt ms r := by
  cases r <;> rfl

/-- In deliver mode `runMsgs` passes exactly when every message's effect applies. -/
theorem applyMsgs_eq_runMsgs (s : σ) (g : GasMeter) (msgs : List Msg) :
    applyMsgs app s g msgs =
      match runMsgs app .deliver s g msgs with
      | (g', .ok (s', code)) => if code = codeOK then some (s', g') else none
      | (_, .error _) => none := by
  induction msgs generalizing s g with
  | nil => simp [applyMsgs, runMsgs]
  | cons msg msgs ih =>
    simp only [applyMsgs, runMsgs]
    cases app.router (app.route msg) with
    | none => simp [codeUnknownRequest, codeOK]
    | some handler =>
      simp only [reduceCtorEq, if_false]
      obtain ⟨g', r⟩ := handler s g msg
      rcases r with p | ⟨s', r⟩
      · rfl
      · by_cases hr : r.isOK = true
        · simp only [hr, if_true]
          exact ih s' g'
        -- a failing message returns its code, which is not OK
        · have hc : r.code ≠ codeOK := by simpa [Result.isOK] using hr
          simp [hr, hc]

/-- The messages' part of `runTx` in deliver mode writes exactly when every message applies. -/
theorem runTxMsgs_deliver (ms : σ) (g : GasMeter) (gasWanted : Gas) (msgs : List Msg) :
    (match applyMsgs app ms g msgs with
      | some (s2, g2) => runTxMsgs app .deliver ms g gasWanted msgs =
          ⟨s2, g2, g2, gasWanted, .ok ⟨codeOK, gasWanted, g2.gasConsumed⟩⟩
      | none => (runTxMsgs app .deliver ms g gasWanted msgs).store = ms ∧
          ∀ r, (runTxMsgs app .deliver ms g gasWanted msgs).outcome = .ok r → r.isOK = false) := by
  rw [applyMsgs_eq_runMsgs]
  unfold runTxMsgs
  rcases runMsgs app .deliver ms g msgs with ⟨g', p | ⟨s', code⟩⟩
  · exact ⟨rfl, fun r h => by cases h⟩
  · by_cases hc : code = codeOK
    · simp [hc]
    · simp [hc, Result.isOK]

/-- After the ante handler, the body goes on as the messages' part (which is never turned away,
whatever `ms₀` the turned-away case would name). -/
theorem runTxMsgs_reach (ms₀ ms : σ) (g : GasMeter) (gasWanted : Gas) (msgs : List Msg) :
    (runTxMsgs app .deliver ms g gasWanted msgs).EndsAt ms₀
      (match applyMsgs app ms g msgs with
        | some (s2, g2) => .msgs s2 g2
        | none => .ante ms) := by
  have h := runTxMsgs_deliver app ms g gasWanted msgs
  cases hm : applyMsgs app ms g msgs with
  | none => rw [hm] at h; exact h
  | some sg =>
    obtain ⟨s2, g2⟩ := sg
    rw [hm] at h
    rw [h]
    exact ⟨rfl, rfl, gasWanted, rfl⟩

/-- The body of `runTx` in deliver mode ends where `reachBody` says: without a write when the
transaction is turned away, with the ante handler's store and no OK result when a message fails,
and with the messages' store and an OK result when every message passes. -/
theorem runTxBody_deliver (ms : σ) (g : GasMeter) (tx : Tx) :
    (runTxBody app .deliver ms g tx).EndsAt ms (reachBody app ms g tx) := by
  unfold reachBody runTxBody
  cases hc : (checkNewMsgsUpgradeHeight app (app.getMsgs tx) <|>
      validateBasicTxMsgs app (app.getMsgs tx)) with
  | some code => rfl
  | none =>
    simp only [Option.isSome_none, Bool.false_eq_true, if_false]
    unfold anteStore
    cases app.anteHandler with
    | none => exact runTxMsgs_reach app ms ms g 0 (app.getMsgs tx)
    | some anteHandler =>
      have hsim : (RunTxMode.deliver == RunTxMode.simulate) = false := rfl
      simp only [hsim]
      obtain ⟨g₁, p | out⟩ := anteHandler ms g tx false
      · rfl
      · dsimp only
        cases out.abort
        · simp only [Bool.false_eq_true, if_false]
          -- a new meter for the transaction changes the state's meter only
          cases out.gasMeter with
          | none => exact runTxMsgs_reach app ms out.store g₁ out.result.gasWanted (app.getMsgs tx)
          | some g₂ =>
            exact (BodyOut.endsAt_stateGasMeter _ _ _ _).2
              (runTxMsgs_reach app ms out.store g₂ out.result.gasWanted (app.getMsgs tx))
        · rfl

/-- `recoverResult` is OK only on an OK result: a recovered panic is an error. -/
theorem isOK_recoverResult (gasWanted : Gas) (g : GasMeter) (o : Except Panic Result) :
    (recoverResult gasWanted g o).isOK = true ↔ ∃ r, o = .ok r ∧ r.isOK = true := by
  rcases o with p | r
  · rcases p with e | _
    · cases e <;> simp [recoverResult, Result.isOK, codeOutOfGas, codeInternal, codeOK]
    · simp [recoverResult, Result.isOK, codeInternal, codeOK]
  · simp [recoverResult, Result.isOK]

/-- Once the block's gas is checked, `runTx` in deliver mode is its body followed by the deferred
calls. -/
theorem runTx_deliver_of_not_isOutOfGas {ms : σ} {g blockGasMeter : GasMeter} {tx : Tx}
    (hb : blockGasMeter.isOutOfGas = false) :
    runTx app .deliver ms g blockGasMeter tx =
      ⟨(runTxBody app .deliver ms g tx).store, (runTxBody app .deliver ms g tx).stateGasMeter,
        (consumeBlockGas .deliver blockGasMeter.gasConsumed blockGasMeter
          (runTxBody app .deliver ms g tx).gasMeter).1,
        recoverResult (runTxBody app .deliver ms g tx).gasWanted (runTxBody app .deliver ms g tx).gasMeter
          (match (consumeBlockGas .deliver blockGasMeter.gasConsumed blockGasMeter
              (runTxBody app .deliver ms g tx).gasMeter).2 with
            | some p => .error p
            | none => (runTxBody app .deliver ms g tx).outcome)⟩ := by
  simp [runTx, hb]

/-- The store after `runTx` in deliver mode is the one `reach` gives: the transaction's writes
stay exactly as far as it gets. -/
theorem runTx_store (ms : σ) (g blockGasMeter : GasMeter) (tx : Tx) :
    (runTx app .deliver ms g blockGasMeter tx).store = (reach app ms g blockGasMeter tx).store ms := by
  cases hb : blockGasMeter.isOutOfGas
  · rw [runTx_deliver_of_not_isOutOfGas app hb, reach, if_neg (by simp [hb])]
    have h := runTxBody_deliver app ms g tx
    cases hr : reachBody app ms g tx with
    | rejected => rw [hr] at h; exact h
    | ante s1 => rw [hr] at h; exact h.1
    | msgs s2 g2 => rw [hr] at h; exact h.1
  · simp [runTx, reach, hb, Reach.store]

/-- In deliver mode a transaction that gets as far as `reach` says was checked against a block
gas meter with gas left. -/
theorem isOutOfGas_of_reach_ne {ms : σ} {g blockGasMeter : GasMeter} {tx : Tx}
    (h : reach app ms g blockGasMeter tx ≠ .rejected) :
    blockGasMeter.isOutOfGas = false ∧ reach app ms g blockGasMeter tx = reachBody app ms g tx := by
  cases hb : blockGasMeter.isOutOfGas
  · exact ⟨rfl, by simp [reach, hb]⟩
  · simp [reach, hb] at h

/-- When every message passes, their writes stay, and the result is OK exactly when the block
gas meter takes the transaction's gas. -/
theorem runTx_of_reach_msgs {ms s2 : σ} {g g2 blockGasMeter : GasMeter} {tx : Tx}
    (h : reach app ms g blockGasMeter tx = .msgs s2 g2) :
    (runTx app .deliver ms g blockGasMeter tx).store = s2 ∧
      ((runTx app .deliver ms g blockGasMeter tx).result.isOK = true ↔
        (consumeBlockGas .deliver blockGasMeter.gasConsumed blockGasMeter g2).2 = none) := by
  have hne : reach app ms g blockGasMeter tx ≠ .rejected := by simp [h]
  obtain ⟨hb, hr⟩ := isOutOfGas_of_reach_ne app hne
  have hbody := runTxBody_deliver app ms g tx
  rw [← hr, h] at hbody
  obtain ⟨hs, hg, w, hw⟩ := hbody
  rw [runTx_deliver_of_not_isOutOfGas app hb]
  refine ⟨hs, ?_⟩
  dsimp only
  rw [hg, isOK_recoverResult]
  cases (consumeBlockGas .deliver blockGasMeter.gasConsumed blockGasMeter g2).2 with
  | some p => simp
  | none => simp [hw, Result.isOK]

/-- A basic block gas meter takes the transaction's gas exactly when the block stays within its
limit. -/
theorem consumeBlockGas_basic_eq_none_iff (limit consumed : Gas) (g : GasMeter) :
    (consumeBlockGas .deliver consumed (.basic limit consumed) g).2 = none ↔
      consumed.toNat + g.gasConsumedToLimit.toNat ≤ limit.toNat := by
  constructor
  · intro h
    by_contra hlt
    have hp := GasMeter.consumeGas_basic_isSome_of_lt (not_le.1 hlt) "block gas meter"
    -- the meter's panic is the charge's
    revert h hp
    simp only [consumeBlockGas, if_true]
    cases (GasMeter.basic limit consumed).consumeGas g.gasConsumedToLimit "block gas meter" with
    | mk bg e => cases e <;> simp
  · intro h
    have hl := limit.toNat_lt
    have hsum : (consumed + g.gasConsumedToLimit).toNat = consumed.toNat + g.gasConsumedToLimit.toNat := by
      rw [UInt64.toNat_add]
      omega
    -- within the limit the block's consumption only grows, so the summation check passes
    have hge : ¬consumed + g.gasConsumedToLimit < consumed := fun h' => by
      have := UInt64.lt_iff_toNat_lt.1 h'
      omega
    simp [consumeBlockGas, GasMeter.consumeGas_basic_of_le h, GasMeter.gasConsumed, hge]

/-- One message whose handler writes `1` and uses 10 gas, and no ante handler. -/
def counterApp : BaseApp Nat Unit Unit where
  anteHandler := none
  router _ := some fun s g _ => ((g.consumeGas 10 "WriteFlat").1, .ok (s + 1, ⟨codeOK, 0, 0⟩))
  getMsgs _ := [()]
  route _ := "bank"
  msgType _ := "send"
  validateBasic _ := none
  msgCheck _ := true

/-- With 5 gas left in the block, the message passes and its write stays, while the deferred
charge of its 10 gas panics and `runTx` returns an out-of-gas error. -/
theorem runTx_blockGas_after_write :
    reach counterApp 0 (.infinite 0) (.basic 5 0) () = .msgs 1 (.infinite 10) ∧
      (runTx counterApp .deliver 0 (.infinite 0) (.basic 5 0) ()).store = 1 ∧
      (runTx counterApp .deliver 0 (.infinite 0) (.basic 5 0) ()).result.code = codeOutOfGas := by
  decide

/-- When a message fails, has no route or panics, the result is not OK and only the ante
handler's writes stay. -/
theorem runTx_of_reach_ante {ms s1 : σ} {g blockGasMeter : GasMeter} {tx : Tx}
    (h : reach app ms g blockGasMeter tx = .ante s1) :
    (runTx app .deliver ms g blockGasMeter tx).store = s1 ∧
      (runTx app .deliver ms g blockGasMeter tx).result.isOK = false := by
  have hne : reach app ms g blockGasMeter tx ≠ .rejected := by simp [h]
  obtain ⟨hb, hr⟩ := isOutOfGas_of_reach_ne app hne
  have hbody := runTxBody_deliver app ms g tx
  rw [← hr, h] at hbody
  obtain ⟨hs, hok⟩ := hbody
  rw [runTx_deliver_of_not_isOutOfGas app hb]
  refine ⟨hs, ?_⟩
  -- a panic of the charge is an error, and so is what the body returned
  rw [Bool.eq_false_iff, ne_eq, isOK_recoverResult]
  rintro ⟨r, hr, hrok⟩
  split at hr
  · cases hr
  · rw [hok r hr] at hrok
    cases hrok

/-- `runTx` in deliver mode on a basic block gas meter with `consumed` of its `limit` used: the
store it leaves is the one `reach` gives; a transaction whose messages fail returns an error; and
one whose messages all pass returns OK exactly when the block stays within its limit, its writes
staying either way. -/
theorem runTx_deliver_reach (ms : σ) (g : GasMeter) (limit consumed : Gas) (tx : Tx) :
    (runTx app .deliver ms g (.basic limit consumed) tx).store =
        (reach app ms g (.basic limit consumed) tx).store ms ∧
      (∀ s1, reach app ms g (.basic limit consumed) tx = .ante s1 →
        (runTx app .deliver ms g (.basic limit consumed) tx).result.isOK = false) ∧
      ∀ s2 g2, reach app ms g (.basic limit consumed) tx = .msgs s2 g2 →
        ((runTx app .deliver ms g (.basic limit consumed) tx).result.isOK = true ↔
          consumed.toNat + g2.gasConsumedToLimit.toNat ≤ limit.toNat) := by
  refine ⟨runTx_store app ms g _ tx, fun s1 h => (runTx_of_reach_ante app h).2, fun s2 g2 h => ?_⟩
  rw [(runTx_of_reach_msgs app h).2]
  exact consumeBlockGas_basic_eq_none_iff limit consumed g2

end Barkis.Baseapp
