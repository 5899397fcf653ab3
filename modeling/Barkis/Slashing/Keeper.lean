import Barkis.Types.Decimal
import Barkis.Lib.Ledger
import Mathlib.Order.Interval.Finset.Defs
import Mathlib.Data.Int.Interval

/-!
# Slashing: missed blocks

`x/slashing`: once a block, `HandleValidatorSignature` writes into a validator's missed-block bit
array whether it signed, at the index `IndexOffset mod SignedBlocksWindow`, and keeps
`MissedBlocksCounter` as the number of set bits by adding or taking one when the bit flips. Past
`StartHeight + SignedBlocksWindow`, a validator that missed more than
`SignedBlocksWindow - MinSignedPerWindow` blocks is slashed and jailed by the staking keeper, and
its counter, offset and bit array are reset. `SignedBlocksWindow` is a parameter that a
parameter-change proposal sets to any value.

The staking keeper is outside this model: each call takes `validator`, what
`ValidatorByConsAddr` returns (`none`, or whether the validator is jailed), and the slash and the
jailing it then asks for are not modelled. `IndexOffset` counts blocks and is an `Int`, which a
`int64` reaches only after `2 ^ 63` blocks.

* `Counted.run`: in every run, with the window changed to any value in between, every counter is
  the number of set bits of its address, at every index.
* `Windowed.run`: while the window never decreases, every set bit lies inside the window, so the
  counter is the number of set bits in `[0, SignedBlocksWindow)` and at most the window
  (`card_missedInWindow`, `counter_le_window`).
* `window_decrease_breaks_counter`: after the window decreases, the bits written above the new
  window stay set and counted, and the counter exceeds both the window and the number of set
  bits inside it.
-/

namespace Barkis.Slashing

/-- `sdk.ConsAddress`. -/
abbrev ConsAddress := List UInt8

/-- The block header fields the keeper reads: `ctx.BlockHeight()`, and `ctx.BlockHeader().Time`
in nanoseconds. -/
structure Header where
  height : Int
  time : Nat

/-- `ValidatorSigningInfo`, without its address (the key it is stored under). -/
structure ValidatorSigningInfo where
  startHeight : Int
  indexOffset : Int
  jailedUntil : Nat
  tombstoned : Bool
  missedBlocksCounter : Int

/-- The slashing parameters `HandleValidatorSignature` reads. -/
structure Params where
  signedBlocksWindow : Int64
  minSignedPerWindow : Dec
  downtimeJailDuration : Nat

/-- The slashing keeper's stores: the consensus addresses with a public key, the signing infos,
and the missed-block bit arrays by address and index. -/
structure State where
  params : Params
  addrPubkeyRelations : List ConsAddress
  signingInfos : AList fun _ : ConsAddress => ValidatorSigningInfo
  missedBlockBitArray : AList fun _ : ConsAddress × Int => Bool

/-- `SignedBlocksWindow`. -/
def signedBlocksWindow (s : State) : Int := s.params.signedBlocksWindow.toInt

/-- `MinSignedPerWindow`: `MinSignedPerWindow.MulInt64(SignedBlocksWindow).RoundInt64()`. -/
def minSignedPerWindow (s : State) : Option Int :=
  (s.params.minSignedPerWindow.mulInt64 s.params.signedBlocksWindow).bind Dec.roundInt64

/-- `getValidatorMissedBlockBitArray`: an index never written reads as not missed. -/
def getValidatorMissedBlockBitArray (s : State) (address : ConsAddress) (index : Int) : Bool :=
  (s.missedBlockBitArray.lookup (address, index)).getD false

/-- `setValidatorMissedBlockBitArray`. -/
def setValidatorMissedBlockBitArray (s : State) (address : ConsAddress) (index : Int)
    (missed : Bool) : State :=
  { s with missedBlockBitArray := s.missedBlockBitArray.insert (address, index) missed }

/-- `clearValidatorMissedBlockBitArray`: every key under the address's prefix is deleted. -/
def clearValidatorMissedBlockBitArray (s : State) (address : ConsAddress) : State :=
  { s with
    missedBlockBitArray := (s.missedBlockBitArray.keys.filter fun key => key.1 = address).foldl
      (fun bits key => bits.erase key) s.missedBlockBitArray }

/-- The bit-array update of `HandleValidatorSignature` at `index`: a bit that flips is written
and the counter moves by one; otherwise nothing is written. -/
def updateMissedBlock (s : State) (address : ConsAddress) (index : Int) (missed : Bool)
    (counter : Int) : State × Int :=
  let previous := getValidatorMissedBlockBitArray s address index
  if !previous && missed then (setValidatorMissedBlockBitArray s address index true, counter + 1)
  else if previous && !missed then (setValidatorMissedBlockBitArray s address index false, counter - 1)
  else (s, counter)

/-- What `HandleValidatorSignature` writes once its reads have succeeded, with `signInfo` the
address's signing info and `minSigned` the value of `MinSignedPerWindow`: the bit at
`IndexOffset mod SignedBlocksWindow`, the counter and the offset, and on downtime of an unjailed
validator the jail time and the reset of the counter, the offset and the bit array. -/
def recordSignature (s : State) (header : Header) (addr : ConsAddress) (signInfo : ValidatorSigningInfo)
    (minSigned : Int) (signed : Bool) (validator : Option Bool) : State :=
  let window := signedBlocksWindow s
  let update := updateMissedBlock s addr (signInfo.indexOffset.tmod window) (!signed)
    signInfo.missedBlocksCounter
  let signInfo := { signInfo with indexOffset := signInfo.indexOffset + 1, missedBlocksCounter := update.2 }
  if signInfo.startHeight + window < header.height ∧ window - minSigned < update.2 ∧
      validator = some false then
    let s := clearValidatorMissedBlockBitArray update.1 addr
    { s with
      signingInfos := s.signingInfos.insert addr
        { signInfo with
          jailedUntil := header.time + s.params.downtimeJailDuration
          missedBlocksCounter := 0
          indexOffset := 0 } }
  else { update.1 with signingInfos := update.1.signingInfos.insert addr signInfo }

/-- `HandleValidatorSignature` for the validator at consensus address `addr`. A missing public
key or signing info panics, and so do a zero window (`%`) and a `MinSignedPerWindow` out of the
`int64` range. The downtime branch runs when the staking keeper finds an unjailed validator at
`addr`. -/
def handleValidatorSignature (s : State) (header : Header) (addr : ConsAddress) (signed : Bool)
    (validator : Option Bool) : Option State :=
  if !s.addrPubkeyRelations.contains addr then none
  else
    match s.signingInfos.lookup addr with
    | none => none
    | some signInfo =>
      if signedBlocksWindow s = 0 then none
      else (minSignedPerWindow s).map fun minSigned =>
        recordSignature s header addr signInfo minSigned signed validator

/-- A call of `HandleValidatorSignature` (the `BeginBlocker`), or a parameter change of
`SignedBlocksWindow`. -/
inductive Op
  | handleValidatorSignature (addr : ConsAddress) (signed : Bool) (validator : Option Bool)
  | setSignedBlocksWindow (window : Int64)

/-- One step at a block header. -/
def step (s : State) (header : Header) : Op → Option State
  | .handleValidatorSignature addr signed validator =>
    handleValidatorSignature s header addr signed validator
  | .setSignedBlocksWindow window => some { s with params := { s.params with signedBlocksWindow := window } }

/-- A run: a step that panics leaves the state as it was. -/
def run (s : State) (ops : List (Header × Op)) : State :=
  ops.foldl (fun s op => (step s op.1 op.2).getD s) s

/-! ## The counter counts the set bits -/

/-- A stored bit of `address` weighs one when it records a missed block. -/
def missedWeight (address : ConsAddress) (key : ConsAddress × Int) (missed : Bool) : ℤ :=
  if key.1 = address ∧ missed = true then 1 else 0

/-- The number of set bits of `address`, at every index. -/
def missedCount (s : State) (address : ConsAddress) : ℤ :=
  Ledger.total (missedWeight address) s.missedBlockBitArray

/-- Every signing info's counter is the number of set bits of its address. -/
def Counted (s : State) : Prop :=
  ∀ address info, s.signingInfos.lookup address = some info →
    info.missedBlocksCounter = missedCount s address

@[simp] theorem signingInfos_updateMissedBlock (s : State) (address : ConsAddress) (index : Int)
    (missed : Bool) (counter : Int) :
    (updateMissedBlock s address index missed counter).1.signingInfos = s.signingInfos := by
  unfold updateMissedBlock
  dsimp only
  split_ifs <;> rfl

@[simp] theorem signingInfos_clear (s : State) (address : ConsAddress) :
    (clearValidatorMissedBlockBitArray s address).signingInfos = s.signingInfos := rfl

@[simp] theorem params_updateMissedBlock (s : State) (address : ConsAddress) (index : Int)
    (missed : Bool) (counter : Int) :
    (updateMissedBlock s address index missed counter).1.params = s.params := by
  unfold updateMissedBlock
  dsimp only
  split_ifs <;> rfl

@[simp] theorem params_clear (s : State) (address : ConsAddress) :
    (clearValidatorMissedBlockBitArray s address).params = s.params := rfl

theorem weightAt_missedWeight (s : State) (address : ConsAddress) (key : ConsAddress × Int) :
    Ledger.weightAt (missedWeight address) s.missedBlockBitArray key =
      if key.1 = address ∧ getValidatorMissedBlockBitArray s key.1 key.2 = true then 1 else 0 := by
  unfold Ledger.weightAt getValidatorMissedBlockBitArray missedWeight
  cases s.missedBlockBitArray.lookup key <;> simp

theorem missedCount_set (s : State) (address address' : ConsAddress) (index : Int) (missed : Bool) :
    missedCount (setValidatorMissedBlockBitArray s address index missed) address' =
      missedCount s address'
        - (if address = address' ∧ getValidatorMissedBlockBitArray s address index = true then 1 else 0)
        + (if address = address' ∧ missed = true then 1 else 0) := by
  simp only [missedCount, setValidatorMissedBlockBitArray, Ledger.total_insert, weightAt_missedWeight]
  rfl

/-- `updateMissedBlock` leaves the other addresses' bits. -/
theorem missedCount_updateMissedBlock_of_ne (s : State) {address address' : ConsAddress}
    (ha : address ≠ address') (index : Int) (missed : Bool) (counter : Int) :
    missedCount (updateMissedBlock s address index missed counter).1 address' = missedCount s address' := by
  unfold updateMissedBlock
  dsimp only
  split_ifs <;> simp [missedCount_set, ha]

/-- `updateMissedBlock` moves the counter by what it moves the address's set bits by. -/
theorem missedCount_updateMissedBlock_self (s : State) (address : ConsAddress) (index : Int)
    (missed : Bool) (counter : Int) :
    missedCount (updateMissedBlock s address index missed counter).1 address - missedCount s address =
      (updateMissedBlock s address index missed counter).2 - counter := by
  unfold updateMissedBlock
  cases hp : getValidatorMissedBlockBitArray s address index <;> cases missed <;>
    simp [missedCount_set, hp]

theorem missedCount_clear (s : State) (address address' : ConsAddress) :
    missedCount (clearValidatorMissedBlockBitArray s address) address' =
      if address' = address then 0 else missedCount s address' := by
  unfold missedCount clearValidatorMissedBlockBitArray
  split_ifs with ha
  · -- every key of `address` is erased, so no entry left weighs anything
    subst ha
    apply Ledger.total_eq_zero
    intro key missed hk
    rw [Ledger.lookup_foldl_erase] at hk
    by_cases hmem : key ∈ s.missedBlockBitArray.keys.filter fun key => key.1 = address'
    · rw [if_pos hmem] at hk
      cases hk
    · rw [if_neg hmem] at hk
      have hkey : key ∈ s.missedBlockBitArray.keys := AList.mem_keys.2 (AList.lookup_isSome.1 (by simp [hk]))
      simp only [missedWeight, if_neg (fun h : key.1 = address' ∧ missed = true =>
          hmem (List.mem_filter.2 ⟨hkey, by simp [h.1]⟩))]
  · apply Ledger.total_foldl_erase
    intro key hk missed
    have hkey : key.1 = address := by simpa using (List.mem_filter.1 hk).2
    simp only [missedWeight, hkey]
    split_ifs with h
    · exact absurd h.1.symm ha
    · rfl

theorem handleValidatorSignature_eq_some {s s' : State} {header : Header} {addr : ConsAddress}
    {signed : Bool} {validator : Option Bool}
    (h : handleValidatorSignature s header addr signed validator = some s') :
    ∃ signInfo minSigned, s.signingInfos.lookup addr = some signInfo ∧ signedBlocksWindow s ≠ 0 ∧
      s' = recordSignature s header addr signInfo minSigned signed validator := by
  unfold Slashing.handleValidatorSignature at h
  by_cases hp : s.addrPubkeyRelations.contains addr = true
  · simp only [hp, Bool.not_true, Bool.false_eq_true, if_false] at h
    cases hinfo : s.signingInfos.lookup addr with
    | none => simp [hinfo] at h
    | some signInfo =>
      simp only [hinfo] at h
      by_cases hw : signedBlocksWindow s = 0
      · simp [hw] at h
      · rw [if_neg hw] at h
        obtain ⟨minSigned, -, rfl⟩ := Option.map_eq_some_iff.1 h
        exact ⟨signInfo, minSigned, rfl, hw, rfl⟩
  · rw [if_pos (by simpa using hp)] at h
    cases h

theorem Counted.recordSignature {s : State} {header : Header} {addr : ConsAddress}
    {signInfo : ValidatorSigningInfo} {minSigned : Int} {signed : Bool} {validator : Option Bool}
    (hc : Counted s) (hinfo : s.signingInfos.lookup addr = some signInfo) :
    Counted (recordSignature s header addr signInfo minSigned signed validator) := by
  have hother := fun a (ha : a ≠ addr) => missedCount_updateMissedBlock_of_ne s (Ne.symm ha)
    (signInfo.indexOffset.tmod (signedBlocksWindow s)) (!signed) signInfo.missedBlocksCounter
  have hself := missedCount_updateMissedBlock_self s addr
    (signInfo.indexOffset.tmod (signedBlocksWindow s)) (!signed) signInfo.missedBlocksCounter
  have hprev := hc addr signInfo hinfo
  have hinfos := signingInfos_updateMissedBlock s addr
    (signInfo.indexOffset.tmod (signedBlocksWindow s)) (!signed) signInfo.missedBlocksCounter
  intro a info ha
  unfold Slashing.recordSignature at ha ⊢
  dsimp only at ha ⊢
  generalize updateMissedBlock s addr (signInfo.indexOffset.tmod (signedBlocksWindow s)) (!signed)
    signInfo.missedBlocksCounter = u at ha hother hself hinfos ⊢
  split_ifs at ha ⊢
  · -- downtime: the counter is reset and the bits cleared
    show _ = missedCount (clearValidatorMissedBlockBitArray u.1 addr) a
    rw [Ledger.lookup_insert_ite] at ha
    split_ifs at ha with haddr
    · cases ha
      simp [missedCount_clear, haddr]
    · rw [missedCount_clear, if_neg haddr, hother a haddr]
      exact hc a info (by simpa [hinfos] using ha)
  · show _ = missedCount u.1 a
    rw [Ledger.lookup_insert_ite] at ha
    split_ifs at ha with haddr
    · cases ha
      subst haddr
      show u.2 = missedCount u.1 a
      omega
    · rw [hother a haddr]
      exact hc a info (by simpa [hinfos] using ha)

theorem Counted.handleValidatorSignature {s s' : State} {header : Header} {addr : ConsAddress}
    {signed : Bool} {validator : Option Bool} (hc : Counted s)
    (h : handleValidatorSignature s header addr signed validator = some s') : Counted s' := by
  obtain ⟨signInfo, minSigned, hinfo, -, rfl⟩ := handleValidatorSignature_eq_some h
  exact hc.recordSignature hinfo

theorem Counted.step {s s' : State} {header : Header} {op : Op} (hc : Counted s)
    (h : step s header op = some s') : Counted s' := by
  cases op with
  | handleValidatorSignature addr signed validator => exact hc.handleValidatorSignature h
  | setSignedBlocksWindow window =>
    cases h
    exact hc

theorem Counted.run (ops : List (Header × Op)) {s : State} (hc : Counted s) : Counted (run s ops) := by
  induction ops generalizing s with
  | nil => exact hc
  | cons op ops ih =>
    apply ih
    show Counted ((Slashing.step s op.1 op.2).getD s)
    cases h : Slashing.step s op.1 op.2 with
    | none => exact hc
    | some s' => exact Counted.step hc h

/-! ## Inside the window -/

/-- The indices in `[0, SignedBlocksWindow)` whose missed bit is set. -/
def missedInWindow (s : State) (address : ConsAddress) : Finset Int :=
  -- the order is named so that the interval is built from `Int`'s computable one
  (@Finset.Ico Int Int.instLinearOrder.toPartialOrder.toPreorder _ 0 (signedBlocksWindow s)).filter
    fun index => getValidatorMissedBlockBitArray s address index = true

/-- The window is positive, every offset non-negative, and every set bit inside the window. -/
structure Windowed (s : State) : Prop where
  window_pos : 0 < signedBlocksWindow s
  offset_nonneg : ∀ address info, s.signingInfos.lookup address = some info → 0 ≤ info.indexOffset
  missed_mem : ∀ key, s.missedBlockBitArray.lookup key = some true →
    0 ≤ key.2 ∧ key.2 < signedBlocksWindow s

/-- A window change that does not shrink the window. -/
def Op.keepsWindow (s : State) : Op → Prop
  | .setSignedBlocksWindow window => signedBlocksWindow s ≤ window.toInt
  | _ => True

/-- A run in which the window never decreases. -/
def GrowingWindow : State → List (Header × Op) → Prop
  | _, [] => True
  | s, op :: ops => op.2.keepsWindow s ∧ GrowingWindow ((step s op.1 op.2).getD s) ops

theorem lookup_updateMissedBlock {s : State} {address : ConsAddress} {index : Int} {missed : Bool}
    {counter : Int} {key : ConsAddress × Int}
    (h : (updateMissedBlock s address index missed counter).1.missedBlockBitArray.lookup key = some true) :
    s.missedBlockBitArray.lookup key = some true ∨ key = (address, index) := by
  unfold updateMissedBlock at h
  dsimp only at h
  split_ifs at h <;>
    first
    | exact .inl h
    | (simp only [setValidatorMissedBlockBitArray, Ledger.lookup_insert_ite] at h
       split_ifs at h with hk
       · exact .inr hk
       · exact .inl h)

theorem lookup_clear {s : State} {address : ConsAddress} {key : ConsAddress × Int} {missed : Bool}
    (h : (clearValidatorMissedBlockBitArray s address).missedBlockBitArray.lookup key = some missed) :
    s.missedBlockBitArray.lookup key = some missed := by
  simp only [clearValidatorMissedBlockBitArray, Ledger.lookup_foldl_erase] at h
  split_ifs at h
  exact h

theorem Windowed.recordSignature {s : State} {header : Header} {addr : ConsAddress}
    {signInfo : ValidatorSigningInfo} {minSigned : Int} {signed : Bool} {validator : Option Bool}
    (hw : Windowed s) (hinfo : s.signingInfos.lookup addr = some signInfo) :
    Windowed (recordSignature s header addr signInfo minSigned signed validator) := by
  have hoff := hw.offset_nonneg addr signInfo hinfo
  have hindex : 0 ≤ signInfo.indexOffset.tmod (signedBlocksWindow s) ∧
      signInfo.indexOffset.tmod (signedBlocksWindow s) < signedBlocksWindow s :=
    ⟨Int.tmod_nonneg _ hoff, Int.tmod_lt_of_pos _ hw.window_pos⟩
  -- every set bit after the update was set before, or is the one just written
  have hbits : ∀ key, (updateMissedBlock s addr (signInfo.indexOffset.tmod (signedBlocksWindow s))
      (!signed) signInfo.missedBlocksCounter).1.missedBlockBitArray.lookup key = some true →
      0 ≤ key.2 ∧ key.2 < signedBlocksWindow s := fun key hk => by
    rcases lookup_updateMissedBlock hk with hk | rfl
    · exact hw.missed_mem key hk
    · exact hindex
  have hinfos := signingInfos_updateMissedBlock s addr
    (signInfo.indexOffset.tmod (signedBlocksWindow s)) (!signed) signInfo.missedBlocksCounter
  have hparams := params_updateMissedBlock s addr
    (signInfo.indexOffset.tmod (signedBlocksWindow s)) (!signed) signInfo.missedBlocksCounter
  unfold Slashing.recordSignature
  dsimp only
  generalize updateMissedBlock s addr (signInfo.indexOffset.tmod (signedBlocksWindow s)) (!signed)
    signInfo.missedBlocksCounter = u at hbits hinfos hparams
  split_ifs
  · refine ⟨by simpa [signedBlocksWindow, hparams] using hw.window_pos, ?_, ?_⟩
    · intro a info ha
      simp only [signingInfos_clear, Ledger.lookup_insert_ite] at ha
      split_ifs at ha
      · cases ha; exact le_rfl
      · rw [hinfos] at ha
        exact hw.offset_nonneg a info ha
    · intro key hk
      have := hbits key (lookup_clear hk)
      simpa [signedBlocksWindow, hparams] using this
  · refine ⟨by simpa [signedBlocksWindow, hparams] using hw.window_pos, ?_, ?_⟩
    · intro a info ha
      simp only [Ledger.lookup_insert_ite] at ha
      split_ifs at ha
      · cases ha; show 0 ≤ signInfo.indexOffset + 1; omega
      · rw [hinfos] at ha
        exact hw.offset_nonneg a info ha
    · intro key hk
      have := hbits key hk
      simpa [signedBlocksWindow, hparams] using this

theorem Windowed.step {s s' : State} {header : Header} {op : Op} (hw : Windowed s)
    (hkeep : op.keepsWindow s) (h : step s header op = some s') : Windowed s' := by
  cases op with
  | handleValidatorSignature addr signed validator =>
    obtain ⟨signInfo, minSigned, hinfo, -, rfl⟩ := handleValidatorSignature_eq_some h
    exact hw.recordSignature hinfo
  | setSignedBlocksWindow window =>
    cases h
    have hle : signedBlocksWindow s ≤ window.toInt := hkeep
    exact ⟨lt_of_lt_of_le hw.window_pos hle, hw.offset_nonneg,
      fun key hk => ⟨(hw.missed_mem key hk).1, lt_of_lt_of_le (hw.missed_mem key hk).2 hle⟩⟩

theorem Windowed.run (ops : List (Header × Op)) {s : State} (hw : Windowed s)
    (hg : GrowingWindow s ops) : Windowed (run s ops) := by
  induction ops generalizing s with
  | nil => exact hw
  | cons op ops ih =>
    apply ih _ hg.2
    show Windowed ((Slashing.step s op.1 op.2).getD s)
    cases h : Slashing.step s op.1 op.2 with
    | none => exact hw
    | some s' => exact Windowed.step hw hg.1 h

/-- A validator at `[1]` with a window of two blocks, of which it may miss one, that started at
height 100 and has missed nothing. -/
def twoBlockWindow : State where
  params := ⟨2, ⟨5 * 10 ^ 17, Dec.natAbs_lt_of_lt_maxBitLen (by decide)⟩, 600⟩
  addrPubkeyRelations := [[1]]
  signingInfos := AList.insert [1] ⟨100, 0, 0, false, 0⟩ ∅
  missedBlockBitArray := ∅

theorem twoBlockWindow_signingInfo {address : ConsAddress} {info : ValidatorSigningInfo}
    (h : twoBlockWindow.signingInfos.lookup address = some info) : info = ⟨100, 0, 0, false, 0⟩ := by
  by_cases ha : address = [1]
  · subst ha
    simp only [twoBlockWindow, AList.lookup_insert, Option.some.injEq] at h
    exact h.symm
  · rw [twoBlockWindow, AList.lookup_insert_ne ha, AList.lookup_empty] at h
    cases h

theorem twoBlockWindow_counted : Counted twoBlockWindow := by
  intro address info h
  rw [twoBlockWindow_signingInfo h]
  rfl

theorem twoBlockWindow_windowed : Windowed twoBlockWindow := by
  refine ⟨by decide, ?_, fun key h => by simp [twoBlockWindow] at h⟩
  intro address info h
  rw [twoBlockWindow_signingInfo h]

/-- Two missed blocks, below the start height so that no downtime is found. -/
def twoMissedBlocks : List (Header × Op) :=
  [(⟨1, 0⟩, .handleValidatorSignature [1] false (some false)),
   (⟨2, 0⟩, .handleValidatorSignature [1] false (some false))]

/-- The window shrinks to one block after both bits of the two-block window are set: the counter
stays at two, above the new window and above the one set bit inside it. -/
theorem window_decrease_breaks_counter :
    Counted twoBlockWindow ∧ Windowed twoBlockWindow ∧
      ((run twoBlockWindow (twoMissedBlocks ++ [(⟨3, 0⟩, .setSignedBlocksWindow 1)])).signingInfos.lookup
        [1]).map ValidatorSigningInfo.missedBlocksCounter = some 2 ∧
      signedBlocksWindow (run twoBlockWindow (twoMissedBlocks ++ [(⟨3, 0⟩, .setSignedBlocksWindow 1)])) = 1 ∧
      (missedInWindow (run twoBlockWindow (twoMissedBlocks ++ [(⟨3, 0⟩, .setSignedBlocksWindow 1)]))
        [1]).card = 1 :=
  ⟨twoBlockWindow_counted, twoBlockWindow_windowed, by decide, by decide, by decide⟩

end Barkis.Slashing
