import Barkis.Staking.Queue
import Barkis.Staking.Handler
import Barkis.Staking.Keys
import Barkis.Store.Prefix

/-!
# The time queues in the store

`x/staking/keeper/delegation.go` and `x/staking/keeper/validator.go` over the store. The slice
of a queue at time `t` is the value at `GetQueueTimeKey(queueKey, t)`: the queue's byte, then the
sortable text of `t`. Slices are read and written whole (their amino coding is left out: a value
is the decoded slice). The end blocker's scan runs from the queue's byte up to the
`InclusiveEndBytes` of the key of the block time; the source deletes each slice as the iterator
passes it, which the model does once the iterator has listed them.

The keeper's model holds a queue as a map from its times (`Nat`) to slices (`TimeQueue`). The
store holds that queue under `toTime` when every slice is at the key of its time and no other key
has the queue's byte (`Holds`); `toTime` rises strictly (`TimeMono`), and the times it gives lie
in the years `0` to `9999`, where the keys are sorted as the times.

* `queueIterator_eq`: the scan lists exactly the mature slices, in time order.
* `dequeueAllMatureQueue_simulates`, `insertQueue_simulates`, `removeQueue_simulates`: each call
  on the store does to the queue what the keeper's model does, and answers alike.
* `runQueue_eq_runPending`: over every run, the queue in the store answers as the spec
  (`Pending`): each dequeue returns the entries due, by time, and in arrival order within a time.
* `dequeueAllMatureUBDQueue_refines` and its siblings: the keeper's functions over the store
  refine the model's.
-/

namespace Barkis.Staking

namespace KV

open KVStore Barkis.Store Barkis.Lex Simulation

section Queue

variable {σ α : Type} (st : Ops σ (List UInt8) (List α)) (queueKey : UInt8)

/-- `GetUBDQueueTimeSlice`, `GetRedelegationQueueTimeSlice`, `GetValidatorQueueTimeSlice`: a
missing slice is empty. -/
def getQueueTimeSlice (s : σ) (timestamp : Time) : σ × List α :=
  let r := st.get s (getQueueTimeKey queueKey timestamp)
  (r.1, r.2.getD [])

/-- `SetUBDQueueTimeSlice`, `SetRedelegationQueueTimeSlice`, `SetValidatorQueueTimeSlice`. -/
def setQueueTimeSlice (s : σ) (timestamp : Time) (keys : List α) : σ :=
  st.set s (getQueueTimeKey queueKey timestamp) keys

/-- `DeleteValidatorQueueTimeSlice`. -/
def deleteQueueTimeSlice (s : σ) (timestamp : Time) : σ :=
  st.delete s (getQueueTimeKey queueKey timestamp)

/-- `InsertUBDQueue`, `InsertRedelegationQueue`, `InsertValidatorQueue`: a slice of its own when
the time has none, else appended to the slice. -/
def insertQueue (s : σ) (completionTime : Time) (x : α) : σ :=
  let r := getQueueTimeSlice st queueKey s completionTime
  if r.2.length = 0 then setQueueTimeSlice st queueKey r.1 completionTime [x]
  else setQueueTimeSlice st queueKey r.1 completionTime (r.2 ++ [x])

/-- `DeleteValidatorQueue`: the slice without the entry, deleted when nothing is left in it. -/
def removeQueue [BEq α] (s : σ) (timestamp : Time) (x : α) : σ :=
  let r := getQueueTimeSlice st queueKey s timestamp
  let newTimeSlice := r.2.filter (· != x)
  if newTimeSlice.length = 0 then deleteQueueTimeSlice st queueKey r.1 timestamp
  else setQueueTimeSlice st queueKey r.1 timestamp newTimeSlice

/-- `UBDQueueIterator`, `RedelegationQueueIterator`, `ValidatorQueueIterator`: the slices from the
queue's byte up to the key of `endTime`, inclusive. -/
def queueIterator (s : σ) (endTime : Time) : σ × List (List UInt8 × List α) :=
  st.iterator s (some [queueKey]) (some (inclusiveEndBytes (getQueueTimeKey queueKey endTime))) true

/-- `DequeueAllMatureUBDQueue`, `DequeueAllMatureRedelegationQueue`: every slice up to the block
time is appended to the result and deleted. The source's `currTime` is unused: the scan ends at
the block header's time. -/
def dequeueAllMatureQueue (s : σ) (blockTime : Time) : σ × List α :=
  let r := queueIterator st queueKey s blockTime
  r.2.foldl (fun acc kv => (st.delete acc.1 kv.1, acc.2 ++ kv.2)) (r.1, [])

/-- `GetAllMatureValidatorQueue`: the slices up to the block time, concatenated. -/
def getAllMatureQueue (s : σ) (blockTime : Time) : List α :=
  (queueIterator st queueKey s blockTime).2.flatMap Prod.snd

/-- One call on the queue in the store; the keeper's times are taken to the store's by
`toTime`. -/
def stepQueue [BEq α] (toTime : Nat → Time) (s : σ) : QueueOp α → σ × List α
  | .insert t x => (insertQueue st queueKey s (toTime t) x, [])
  | .remove t x => (removeQueue st queueKey s (toTime t) x, [])
  | .dequeue now => dequeueAllMatureQueue st queueKey s (toTime now)

end Queue

/-! ## The keeper's functions -/

section Members

variable {σ : Type}

/-- `GetUBDQueueTimeSlice`. -/
def getUBDQueueTimeSlice (st : Ops σ (List UInt8) (List (Bank.AccAddress × ValAddress))) (s : σ)
    (timestamp : Time) : σ × List (Bank.AccAddress × ValAddress) :=
  getQueueTimeSlice st unbondingQueueKey s timestamp

/-- `SetUBDQueueTimeSlice`. -/
def setUBDQueueTimeSlice (st : Ops σ (List UInt8) (List (Bank.AccAddress × ValAddress))) (s : σ)
    (timestamp : Time) (keys : List (Bank.AccAddress × ValAddress)) : σ :=
  setQueueTimeSlice st unbondingQueueKey s timestamp keys

/-- `InsertUBDQueue`. -/
def insertUBDQueue (st : Ops σ (List UInt8) (List (Bank.AccAddress × ValAddress))) (s : σ)
    (delAddr : Bank.AccAddress) (valAddr : ValAddress) (completionTime : Time) : σ :=
  insertQueue st unbondingQueueKey s completionTime (delAddr, valAddr)

/-- `UBDQueueIterator`. -/
def ubdQueueIterator (st : Ops σ (List UInt8) (List (Bank.AccAddress × ValAddress))) (s : σ)
    (endTime : Time) : σ × List (List UInt8 × List (Bank.AccAddress × ValAddress)) :=
  queueIterator st unbondingQueueKey s endTime

/-- `DequeueAllMatureUBDQueue`. -/
def dequeueAllMatureUBDQueue (st : Ops σ (List UInt8) (List (Bank.AccAddress × ValAddress)))
    (s : σ) (blockTime : Time) : σ × List (Bank.AccAddress × ValAddress) :=
  dequeueAllMatureQueue st unbondingQueueKey s blockTime

/-- `GetRedelegationQueueTimeSlice`. -/
def getRedelegationQueueTimeSlice
    (st : Ops σ (List UInt8) (List (Bank.AccAddress × ValAddress × ValAddress))) (s : σ)
    (timestamp : Time) : σ × List (Bank.AccAddress × ValAddress × ValAddress) :=
  getQueueTimeSlice st redelegationQueueKey s timestamp

/-- `SetRedelegationQueueTimeSlice`. -/
def setRedelegationQueueTimeSlice
    (st : Ops σ (List UInt8) (List (Bank.AccAddress × ValAddress × ValAddress))) (s : σ)
    (timestamp : Time) (keys : List (Bank.AccAddress × ValAddress × ValAddress)) : σ :=
  setQueueTimeSlice st redelegationQueueKey s timestamp keys

/-- `InsertRedelegationQueue`. -/
def insertRedelegationQueue
    (st : Ops σ (List UInt8) (List (Bank.AccAddress × ValAddress × ValAddress))) (s : σ)
    (delAddr : Bank.AccAddress) (valSrcAddr valDstAddr : ValAddress) (completionTime : Time) : σ :=
  insertQueue st redelegationQueueKey s completionTime (delAddr, valSrcAddr, valDstAddr)

/-- `RedelegationQueueIterator`. -/
def redelegationQueueIterator
    (st : Ops σ (List UInt8) (List (Bank.AccAddress × ValAddress × ValAddress))) (s : σ)
    (endTime : Time) : σ × List (List UInt8 × List (Bank.AccAddress × ValAddress × ValAddress)) :=
  queueIterator st redelegationQueueKey s endTime

/-- `DequeueAllMatureRedelegationQueue`. -/
def dequeueAllMatureRedelegationQueue
    (st : Ops σ (List UInt8) (List (Bank.AccAddress × ValAddress × ValAddress))) (s : σ)
    (blockTime : Time) : σ × List (Bank.AccAddress × ValAddress × ValAddress) :=
  dequeueAllMatureQueue st redelegationQueueKey s blockTime

/-- `GetValidatorQueueTimeSlice`. -/
def getValidatorQueueTimeSlice (st : Ops σ (List UInt8) (List ValAddress)) (s : σ)
    (timestamp : Time) : σ × List ValAddress :=
  getQueueTimeSlice st validatorQueueKey s timestamp

/-- `SetValidatorQueueTimeSlice`. -/
def setValidatorQueueTimeSlice (st : Ops σ (List UInt8) (List ValAddress)) (s : σ)
    (timestamp : Time) (keys : List ValAddress) : σ :=
  setQueueTimeSlice st validatorQueueKey s timestamp keys

/-- `DeleteValidatorQueueTimeSlice`. -/
def deleteValidatorQueueTimeSlice (st : Ops σ (List UInt8) (List ValAddress)) (s : σ)
    (timestamp : Time) : σ :=
  deleteQueueTimeSlice st validatorQueueKey s timestamp

/-- `InsertValidatorQueue`: the operator address at the validator's unbonding completion time. -/
def insertValidatorQueue (st : Ops σ (List UInt8) (List ValAddress)) (s : σ)
    (operatorAddress : ValAddress) (unbondingCompletionTime : Time) : σ :=
  insertQueue st validatorQueueKey s unbondingCompletionTime operatorAddress

/-- `DeleteValidatorQueue`. -/
def deleteValidatorQueue (st : Ops σ (List UInt8) (List ValAddress)) (s : σ)
    (operatorAddress : ValAddress) (unbondingCompletionTime : Time) : σ :=
  removeQueue st validatorQueueKey s unbondingCompletionTime operatorAddress

/-- `ValidatorQueueIterator`. -/
def validatorQueueIterator (st : Ops σ (List UInt8) (List ValAddress)) (s : σ) (endTime : Time) :
    σ × List (List UInt8 × List ValAddress) :=
  queueIterator st validatorQueueKey s endTime

/-- `GetAllMatureValidatorQueue`. -/
def getAllMatureValidatorQueue (st : Ops σ (List UInt8) (List ValAddress)) (s : σ)
    (blockTime : Time) : List ValAddress :=
  getAllMatureQueue st validatorQueueKey s blockTime

end Members

/-! ## The queue in the store -/

/-- The years whose times have sortable keys. -/
def InYearRange (t : Time) : Prop := 0 ≤ t.year ∧ t.year ≤ 9999

instance instDecidableInYearRange (t : Time) : Decidable (InYearRange t) :=
  inferInstanceAs (Decidable (_ ∧ _))

/-- The keeper's times go to the store's by a strictly rising map. -/
def TimeMono (toTime : Nat → Time) : Prop := ∀ n m, n < m → (toTime n).before (toTime m)

/-- The model's times, in nanoseconds since the Unix epoch, as times. -/
def ofUnixNano (n : Nat) : Time := ⟨(n / 10 ^ 9 : Nat), n % 10 ^ 9, Nat.mod_lt n (Nat.pow_pos (Nat.succ_pos 9))⟩

theorem timeMono_ofUnixNano : TimeMono ofUnixNano := by
  intro n m h
  simp only [ofUnixNano, Time.before]
  omega

section Holds

variable {α : Type} (queueKey : UInt8)

/-- The store `m` holds the queue `q` under `queueKey`: every time of the queue has sortable
keys, the slice of every such time is at its key, and no other key has the queue's byte. -/
structure Holds (m : List UInt8 → Option (List α)) (toTime : Nat → Time) (q : TimeQueue α) :
    Prop where
  inRange : ∀ n ∈ q, InYearRange (toTime n)
  slice : ∀ n, InYearRange (toTime n) → m (getQueueTimeKey queueKey (toTime n)) = q.lookup n
  only : ∀ k v, m k = some v → k.head? = some queueKey →
    ∃ n, InYearRange (toTime n) ∧ k = getQueueTimeKey queueKey (toTime n)

/-- A store without a key of the queue's byte holds the empty queue. -/
theorem holds_nil {m : List UInt8 → Option (List α)} (toTime : Nat → Time)
    (hm : ∀ k v, m k = some v → k.head? ≠ some queueKey) : Holds queueKey m toTime ∅ := by
  refine ⟨fun n hn => absurd hn (AList.notMem_empty n), fun n _ => ?_, fun k v hk hhead => ?_⟩
  · cases hk : m (getQueueTimeKey queueKey (toTime n)) with
    | none => rfl
    | some v => exact absurd rfl (hm _ v hk)
  · exact absurd hhead (hm k v hk)

/-- An empty finite-map store holds the empty queue. -/
theorem holds_empty (toTime : Nat → Time) :
    Holds queueKey (amapView (∅ : AList fun _ : List UInt8 => List α)) toTime ∅ :=
  holds_nil queueKey toTime fun k v h => by simp [amapView] at h

variable {toTime : Nat → Time} (hmono : TimeMono toTime)
include hmono

theorem queueKey_le_iff {n m : Nat} (hn : InYearRange (toTime n)) (hm : InYearRange (toTime m)) :
    getQueueTimeKey queueKey (toTime n) ≤ getQueueTimeKey queueKey (toTime m) ↔ n ≤ m := by
  rw [getQueueTimeKey_le_iff queueKey hn hm]
  constructor
  · intro h
    by_contra hlt
    exact h (hmono m n (by omega))
  · intro h hb
    rcases Nat.lt_or_eq_of_le h with hlt | rfl
    · exact Time.before_asymm (hmono n m hlt) hb
    · exact Time.before_irrefl _ hb

theorem queueKey_lt_iff {n m : Nat} (hn : InYearRange (toTime n)) (hm : InYearRange (toTime m)) :
    getQueueTimeKey queueKey (toTime n) < getQueueTimeKey queueKey (toTime m) ↔ n < m := by
  rw [← not_le, queueKey_le_iff queueKey hmono hm hn, not_le]

theorem queueKey_inj {n m : Nat} (hn : InYearRange (toTime n)) (hm : InYearRange (toTime m)) :
    getQueueTimeKey queueKey (toTime n) = getQueueTimeKey queueKey (toTime m) ↔ n = m := by
  constructor
  · intro h
    exact le_antisymm ((queueKey_le_iff queueKey hmono hn hm).1 h.le)
      ((queueKey_le_iff queueKey hmono hm hn).1 h.ge)
  · rintro rfl
    rfl

/-- Writing the key of one time changes the queue at that time only. The new store `m'` is given
pointwise, so any decision of key equality may build it. -/
theorem Holds.update {m m' : List UInt8 → Option (List α)} {q q' : TimeQueue α}
    (hq : Holds queueKey m toTime q) {t : Nat} (ht : InYearRange (toTime t))
    (hkey : m' (getQueueTimeKey queueKey (toTime t)) = q'.lookup t)
    (hrest : ∀ k, k ≠ getQueueTimeKey queueKey (toTime t) → m' k = m k)
    (hother : ∀ n, n ≠ t → q'.lookup n = q.lookup n) :
    Holds queueKey m' toTime q' := by
  refine ⟨fun n hn => ?_, fun n hn => ?_, fun k v hk hhead => ?_⟩
  · by_cases hnt : n = t
    · exact hnt ▸ ht
    · refine hq.inRange n (AList.lookup_isSome.1 ?_)
      rw [← hother n hnt]
      exact AList.lookup_isSome.2 hn
  · by_cases hnt : n = t
    · subst hnt
      exact hkey
    · have hne := (queueKey_inj queueKey hmono hn ht).not.2 hnt
      rw [hrest _ hne, hq.slice n hn, hother n hnt]
  · by_cases hkt : k = getQueueTimeKey queueKey (toTime t)
    · exact ⟨t, ht, hkt⟩
    · rw [hrest k hkt] at hk
      exact hq.only k v hk hhead

omit hmono in
theorem Holds.inRange_matureSlices {m : List UInt8 → Option (List α)} {q : TimeQueue α}
    (hq : Holds queueKey m toTime q) (now : Nat) :
    ∀ e ∈ matureSlices q now, InYearRange (toTime e.1) :=
  fun _ he => hq.inRange _ (mem_of_mem_matureSlices he)

end Holds

/-! ## The calls on the store -/

section Calls

variable {σ α : Type} (st : Ops σ (List UInt8) (List α)) (queueKey : UInt8)

/-- The loop of the dequeue deletes the listed keys and concatenates their slices. -/
theorem foldl_delete_append (items : List (List UInt8 × List α)) (s : σ) (acc : List α) :
    items.foldl (fun acc kv => (st.delete acc.1 kv.1, acc.2 ++ kv.2)) (s, acc) =
      ((items.map Prod.fst).foldl st.delete s, acc ++ items.flatMap Prod.snd) := by
  induction items generalizing s acc with
  | nil => simp
  | cons kv items ih =>
    rw [List.foldl_cons, ih, List.map_cons, List.foldl_cons, List.flatMap_cons, List.append_assoc]

theorem dequeueAllMatureQueue_eq (s : σ) (blockTime : Time) :
    dequeueAllMatureQueue st queueKey s blockTime =
      (((queueIterator st queueKey s blockTime).2.map Prod.fst).foldl st.delete
          (queueIterator st queueKey s blockTime).1,
        (queueIterator st queueKey s blockTime).2.flatMap Prod.snd) := by
  simp only [dequeueAllMatureQueue]
  rw [foldl_delete_append, List.nil_append]

theorem insertQueue_eq (s : σ) (t : Time) (x : α) :
    insertQueue st queueKey s t x =
      setQueueTimeSlice st queueKey (getQueueTimeSlice st queueKey s t).1 t
        ((getQueueTimeSlice st queueKey s t).2 ++ [x]) := by
  simp only [insertQueue]
  split_ifs with h
  · rw [List.eq_nil_of_length_eq_zero h, List.nil_append]
  · rfl

variable {st} {Inv : σ → Prop} {view : σ → List UInt8 → Option (List α)}
  (hst : Refines st Inv view) {toTime : Nat → Time} (hmono : TimeMono toTime)
include hst hmono

omit hmono in
/-- A read leaves the store's view as it was and gives the slice at the key, or nothing. -/
theorem getQueueTimeSlice_spec {s : σ} (hs : Inv s) (t : Time) :
    Inv (getQueueTimeSlice st queueKey s t).1 ∧ view (getQueueTimeSlice st queueKey s t).1 = view s ∧
      (getQueueTimeSlice st queueKey s t).2 = (view s (getQueueTimeKey queueKey t)).getD [] :=
  ⟨hst.get_inv s _ hs, hst.get_view s _ hs, by rw [getQueueTimeSlice, hst.get_val s _ hs]⟩

/-- The scan of the end blocker lists exactly the mature slices of the queue, in time order, each
at its key. -/
theorem queueIterator_eq {s : σ} (hs : Inv s) {q : TimeQueue α}
    (hq : Holds queueKey (view s) toTime q) {now : Nat} (hnow : InYearRange (toTime now)) :
    (queueIterator st queueKey s (toTime now)).2 =
      (matureSlices q now).map fun e => (getQueueTimeKey queueKey (toTime e.1), e.2) := by
  have hl : Lists (view s) (some [queueKey])
      (some (inclusiveEndBytes (getQueueTimeKey queueKey (toTime now)))) true
      (queueIterator st queueKey s (toTime now)).2 := hst.iter_items _ _ _ _ hs
  have hin := hq.inRange_matureSlices queueKey now
  refine eq_of_pairwise_of_mem_iff hl.sorted ?_ fun ⟨k, v⟩ => ?_
  · refine List.pairwise_map.2 ((matureSlices_sorted q now).imp_of_mem fun ha hb hab => ?_)
    simp only [Before, if_true]
    exact (queueKey_lt_iff queueKey hmono (hin _ ha) (hin _ hb)).2 hab
  · rw [hl.mem, List.mem_map]
    simp only [isKeyInDomain, Bool.and_eq_true, decide_eq_true_eq, lt_inclusiveEndBytes_iff]
    constructor
    · -- a listed key has the queue's byte, so it is the key of a time up to `now`
      rintro ⟨⟨hlo, hhi⟩, hv⟩
      obtain ⟨n, hn, rfl⟩ := hq.only k v hv (head?_eq_of_le_of_le hlo hhi)
      exact ⟨(n, v), mem_matureSlices.2 ⟨(queueKey_le_iff queueKey hmono hn hnow).1 hhi,
        (hq.slice n hn).symm.trans hv⟩, rfl⟩
    · rintro ⟨e, he, hkv⟩
      obtain ⟨rfl, rfl⟩ := Prod.mk.inj hkv
      obtain ⟨hle, hl'⟩ := mem_matureSlices.1 he
      refine ⟨⟨le_of_isPrefix ⟨formatTimeBytes (toTime e.1), rfl⟩, ?_⟩, (hq.slice e.1 (hin e he)).trans hl'⟩
      exact (queueKey_le_iff queueKey hmono (hin e he) hnow).2 hle

/-- Deleting the keys of some slices takes those slices out of the queue. -/
theorem Holds.foldl_delete (S : List (Nat × List α)) (hS : ∀ e ∈ S, InYearRange (toTime e.1)) :
    ∀ (s : σ) (q : TimeQueue α), Inv s → Holds queueKey (view s) toTime q →
      Inv ((S.map fun e => getQueueTimeKey queueKey (toTime e.1)).foldl st.delete s) ∧
      Holds queueKey (view ((S.map fun e => getQueueTimeKey queueKey (toTime e.1)).foldl st.delete s))
        toTime (S.foldl (fun q slice => q.erase slice.1) q) := by
  induction S with
  | nil => exact fun s q hs hq => ⟨hs, hq⟩
  | cons e S ih =>
    intro s q hs hq
    rw [List.map_cons, List.foldl_cons, List.foldl_cons]
    refine ih (fun e' he' => hS e' (List.mem_cons_of_mem e he')) _ _ (hst.delete_inv s _ hs) ?_
    rw [hst.delete_view s _ hs]
    refine hq.update queueKey hmono (hS e List.mem_cons_self) ?_ (fun k hk => by simp only [Function.update, dif_neg hk])
      fun n hn => AList.lookup_erase_ne hn
    simp [Function.update]

/-- `DequeueAllMatureUBDQueue` and its sibling over the store take the mature slices out of the
queue and return them as the keeper's model does. -/
theorem dequeueAllMatureQueue_simulates {s : σ} (hs : Inv s) {q : TimeQueue α}
    (hq : Holds queueKey (view s) toTime q) {now : Nat} (hnow : InYearRange (toTime now)) :
    Inv (dequeueAllMatureQueue st queueKey s (toTime now)).1 ∧
      Holds queueKey (view (dequeueAllMatureQueue st queueKey s (toTime now)).1) toTime
        (dequeueSlices q now).1 ∧
      (dequeueAllMatureQueue st queueKey s (toTime now)).2 = (dequeueSlices q now).2 := by
  have hs₁ := hst.iter_inv s (some [queueKey])
    (some (inclusiveEndBytes (getQueueTimeKey queueKey (toTime now)))) true hs
  have hq₁ : Holds queueKey (view (queueIterator st queueKey s (toTime now)).1) toTime q := by
    rw [queueIterator, hst.iter_view s _ _ _ hs]
    exact hq
  obtain ⟨h1, h2⟩ := Holds.foldl_delete queueKey hst hmono (matureSlices q now)
    (hq.inRange_matureSlices queueKey now) _ q hs₁ hq₁
  rw [dequeueAllMatureQueue_eq, queueIterator_eq queueKey hst hmono hs hq hnow, List.map_map]
  refine ⟨h1, h2, ?_⟩
  rw [dequeueSlices, List.flatMap_map]

/-- `InsertUBDQueue` and its siblings over the store insert into the queue as the keeper's model
does. -/
theorem insertQueue_simulates {s : σ} (hs : Inv s) {q : TimeQueue α}
    (hq : Holds queueKey (view s) toTime q) {t : Nat} (ht : InYearRange (toTime t)) (x : α) :
    Inv (insertQueue st queueKey s (toTime t) x) ∧
      Holds queueKey (view (insertQueue st queueKey s (toTime t) x)) toTime (insertTimeSlice q t x) := by
  obtain ⟨hs₁, hv₁, hval⟩ := getQueueTimeSlice_spec queueKey hst hs (toTime t)
  rw [hq.slice t ht] at hval
  rw [insertQueue_eq, setQueueTimeSlice]
  refine ⟨hst.set_inv _ _ _ hs₁, ?_⟩
  rw [hst.set_view _ _ _ hs₁, hv₁, hval]
  refine hq.update queueKey hmono ht ?_ (fun k hk => by simp only [Function.update, dif_neg hk])
    fun n hn => AList.lookup_insert_ne hn
  simp [Function.update, insertTimeSlice]

/-- `DeleteValidatorQueue` over the store takes the entry out of the queue as the keeper's model
does. -/
theorem removeQueue_simulates [BEq α] {s : σ} (hs : Inv s) {q : TimeQueue α}
    (hq : Holds queueKey (view s) toTime q) {t : Nat} (ht : InYearRange (toTime t)) (x : α) :
    Inv (removeQueue st queueKey s (toTime t) x) ∧
      Holds queueKey (view (removeQueue st queueKey s (toTime t) x)) toTime (removeTimeSlice q t x) := by
  obtain ⟨hs₁, hv₁, hval⟩ := getQueueTimeSlice_spec queueKey hst hs (toTime t)
  rw [hq.slice t ht] at hval
  have hother : ∀ n, n ≠ t → (removeTimeSlice q t x).lookup n = q.lookup n := fun n hn => by
    rw [lookup_removeTimeSlice, if_neg hn]
  simp only [removeQueue, hval]
  split_ifs with h
  · -- nothing is left: the slice is deleted
    have he : (((q.lookup t).getD []).filter (· != x)).isEmpty :=
      List.isEmpty_iff.2 (List.eq_nil_of_length_eq_zero h)
    refine ⟨hst.delete_inv _ _ hs₁, ?_⟩
    rw [deleteQueueTimeSlice, hst.delete_view _ _ hs₁, hv₁]
    refine hq.update queueKey hmono ht ?_ (fun k hk => by simp only [Function.update, dif_neg hk]) hother
    simp [Function.update, lookup_removeTimeSlice, he]
  · have he : (((q.lookup t).getD []).filter (· != x)).isEmpty = false := by
      rw [Bool.eq_false_iff]
      exact fun he => h (List.length_eq_zero_iff.2 (List.isEmpty_iff.1 he))
    refine ⟨hst.set_inv _ _ _ hs₁, ?_⟩
    rw [setQueueTimeSlice, hst.set_view _ _ _ hs₁, hv₁]
    refine hq.update queueKey hmono ht ?_ (fun k hk => by simp only [Function.update, dif_neg hk]) hother
    simp [Function.update, lookup_removeTimeSlice, he]

/-- Every call on the queue in the store does what the keeper's model does to its queue, and
answers alike. -/
theorem queue_simulates [BEq α] :
    Simulates (stepQueue st queueKey toTime) stepSlices (fun op => InYearRange (toTime op.time))
      fun s q => Inv s ∧ Holds queueKey (view s) toTime q := by
  rintro s q op hop ⟨hs, hq⟩
  cases op with
  | insert t x => exact ⟨insertQueue_simulates queueKey hst hmono hs hq hop x, rfl⟩
  | remove t x => exact ⟨removeQueue_simulates queueKey hst hmono hs hq hop x, rfl⟩
  | dequeue now =>
    obtain ⟨h1, h2, h3⟩ := dequeueAllMatureQueue_simulates queueKey hst hmono hs hq hop
    exact ⟨⟨h1, h2⟩, h3⟩

/-- Over every run of calls at sortable times, the queue in the store answers as the spec: each
dequeue returns the entries due, by time, and in arrival order within a time. -/
theorem runQueue_eq_runPending [BEq α] [LawfulBEq α] (ops : List (QueueOp α))
    (hops : ∀ op ∈ ops, InYearRange (toTime op.time)) {s : σ} (hs : Inv s) {q : TimeQueue α}
    (hq : Holds queueKey (view s) toTime q) {p : Pending α} (hp : SlicesOf q p) :
    (runSteps (stepQueue st queueKey toTime) s ops).2 = (runSteps stepPending p ops).2 :=
  (runSteps_sim ((queue_simulates queueKey hst hmono).trans (slices_simulates.mono fun _ _ => trivial))
    ops s p hops ⟨q, ⟨hs, hq⟩, hp⟩).2

omit hst hmono in
theorem runQueue_eq_runPending_amap :
    (runSteps (stepQueue amapOps unbondingQueueKey ofUnixNano) (∅ : AList fun _ : List UInt8 => List Nat)
        [.insert 5 1, .insert 3 2, .insert 5 3, .dequeue 4, .dequeue 9]).2 =
      (runSteps stepPending [] [.insert 5 1, .insert 3 2, .insert 5 3, .dequeue 4, .dequeue 9]).2 :=
  runQueue_eq_runPending unbondingQueueKey amapOps_refines timeMono_ofUnixNano _ (by decide) trivial
    (holds_empty unbondingQueueKey ofUnixNano) slicesOf_empty

/-- `GetAllMatureValidatorQueue` over the store returns the mature slices of the queue, in time
order. -/
theorem getAllMatureQueue_eq {s : σ} (hs : Inv s) {q : TimeQueue α}
    (hq : Holds queueKey (view s) toTime q) {now : Nat} (hnow : InYearRange (toTime now)) :
    getAllMatureQueue st queueKey s (toTime now) = (matureSlices q now).flatMap Prod.snd := by
  rw [getAllMatureQueue, queueIterator_eq queueKey hst hmono hs hq hnow, List.flatMap_map]

/-- A run without removals, from a store with no entry in the queue and ended by a dequeue at or
after every call's time, returns every inserted entry exactly once. -/
theorem runQueue_drains [BEq α] [LawfulBEq α] (ops : List (QueueOp α)) {now : Nat}
    (hops : ∀ op ∈ ops, InYearRange (toTime op.time) ∧ op.isRemove = false ∧ op.time ≤ now)
    (hnow : InYearRange (toTime now)) {s : σ} (hs : Inv s) (hq : Holds queueKey (view s) toTime ∅) :
    ((runSteps (stepQueue st queueKey toTime) s (ops ++ [.dequeue now])).2.flatten).Perm
      (ops.filterMap QueueOp.entry?) := by
  have hall : ∀ op ∈ ops ++ [.dequeue now], InYearRange (toTime op.time) := by
    intro op hop
    rcases List.mem_append.1 hop with hop | hop
    · exact (hops op hop).1
    · rw [List.mem_singleton.1 hop]
      exact hnow
  have hsim := runSteps_sim ((queue_simulates queueKey hst hmono).trans
    (slices_simulates.mono fun _ _ => trivial)) _ s [] hall ⟨∅, ⟨hs, hq⟩, slicesOf_empty⟩
  have hperm := runPending_perm [] (ops ++ [.dequeue now]) fun op hop => by
    rcases List.mem_append.1 hop with hop | hop
    · exact (hops op hop).2.1
    · rw [List.mem_singleton.1 hop]
      rfl
  -- the last dequeue empties the spec's queue
  have hempty : (runSteps stepPending [] (ops ++ [.dequeue now])).1 = [] := by
    rw [runSteps_append, runSteps_cons, runSteps_nil]
    exact dequeue_fst_eq_nil
      (runPending_le ops (fun op hop => (hops op hop).2.2) [] fun e he => nomatch he)
  rw [hsim.2]
  rw [hempty, List.map_nil, List.append_nil, List.nil_append, List.filterMap_append,
    List.filterMap_cons_none rfl, List.filterMap_nil, List.append_nil] at hperm
  exact hperm

omit hst hmono in
theorem runQueue_drains_amap :
    ((runSteps (stepQueue amapOps unbondingQueueKey ofUnixNano)
        (∅ : AList fun _ : List UInt8 => List Nat)
        ([.insert 5 1, .insert 3 2, .insert 5 3] ++ [.dequeue 9])).2.flatten).Perm
      ([.insert 5 1, .insert 3 2, .insert 5 3].filterMap QueueOp.entry?) :=
  runQueue_drains unbondingQueueKey amapOps_refines timeMono_ofUnixNano _ (by decide) (by decide)
    trivial (holds_empty unbondingQueueKey ofUnixNano)

end Calls

/-! ## Queues with entries -/

/-- Validator `A` unbonding until 3. -/
def unbondingA : Validator := { validatorA with status := .unbonding, unbondingCompletionTime := 3 }

/-- The genesis state with entries in its three queues: `D`'s unbondings from `A` due at 3 and
from `B` due at 7, its redelegations from `A` to `B` due at 3 and from `B` to `A` due at 7, and the
operators of `A` and `B` unbonding until 3. -/
def queuedGenesis : State Unit :=
  let s := Staking.insertUBDQueue (Staking.insertUBDQueue redelegationGenesis delegatorD operatorA 3)
    delegatorD operatorB 7
  let s := Staking.insertRedelegationQueue
    (Staking.insertRedelegationQueue s delegatorD operatorA operatorB 3) delegatorD operatorB operatorA 7
  Staking.insertValidatorQueue (Staking.insertValidatorQueue s operatorA unbondingA) operatorB unbondingA

/-- The unbonding queue of `queuedGenesis`, inserted by `InsertUBDQueue` into an empty store. -/
def ubdQueueStore : AList fun _ : List UInt8 => List (Bank.AccAddress × ValAddress) :=
  insertUBDQueue amapOps (insertUBDQueue amapOps ∅ delegatorD operatorA (ofUnixNano 3)) delegatorD
    operatorB (ofUnixNano 7)

/-- The redelegation queue of `queuedGenesis`, inserted by `InsertRedelegationQueue`. -/
def redelegationQueueStore :
    AList fun _ : List UInt8 => List (Bank.AccAddress × ValAddress × ValAddress) :=
  insertRedelegationQueue amapOps
    (insertRedelegationQueue amapOps ∅ delegatorD operatorA operatorB (ofUnixNano 3)) delegatorD
    operatorB operatorA (ofUnixNano 7)

/-- The validator queue of `queuedGenesis`, inserted by `InsertValidatorQueue`. -/
def validatorQueueStore : AList fun _ : List UInt8 => List ValAddress :=
  insertValidatorQueue amapOps (insertValidatorQueue amapOps ∅ operatorA (ofUnixNano 3)) operatorB
    (ofUnixNano 3)

/-- Two inserts into an empty store give a store that holds the two inserts into an empty queue. -/
theorem holds_insert_insert {α : Type} (queueKey : UInt8) {t₁ t₂ : Nat}
    (h₁ : InYearRange (ofUnixNano t₁)) (h₂ : InYearRange (ofUnixNano t₂)) (x₁ x₂ : α) :
    Holds queueKey (amapView (insertQueue amapOps queueKey
        (insertQueue amapOps queueKey (∅ : AList fun _ : List UInt8 => List α) (ofUnixNano t₁) x₁)
        (ofUnixNano t₂) x₂)) ofUnixNano (insertTimeSlice (insertTimeSlice ∅ t₁ x₁) t₂ x₂) := by
  have hs := insertQueue_simulates queueKey amapOps_refines_amapView timeMono_ofUnixNano trivial
    (holds_empty queueKey ofUnixNano) h₁ x₁
  exact (insertQueue_simulates queueKey amapOps_refines_amapView timeMono_ofUnixNano hs.1 hs.2 h₂
    x₂).2

theorem ubdQueueStore_holds :
    Holds unbondingQueueKey (amapView ubdQueueStore) ofUnixNano queuedGenesis.store.ubdQueue :=
  holds_insert_insert unbondingQueueKey (by decide) (by decide) _ _

theorem redelegationQueueStore_holds :
    Holds redelegationQueueKey (amapView redelegationQueueStore) ofUnixNano
      queuedGenesis.store.redelegationQueue :=
  holds_insert_insert redelegationQueueKey (by decide) (by decide) _ _

theorem validatorQueueStore_holds :
    Holds validatorQueueKey (amapView validatorQueueStore) ofUnixNano
      queuedGenesis.store.validatorQueue :=
  holds_insert_insert validatorQueueKey (by decide) (by decide) _ _

/-! ## The keeper's functions refine the model's -/

section Keeper

variable {σ σ' : Type} {Inv : σ → Prop} {toTime : Nat → Time} (hmono : TimeMono toTime)
  (S : State σ')
include hmono

theorem dequeueAllMatureUBDQueue_refines
    {st : Ops σ (List UInt8) (List (Bank.AccAddress × ValAddress))}
    {view : σ → List UInt8 → Option (List (Bank.AccAddress × ValAddress))}
    (hst : Refines st Inv view) {s : σ} (hs : Inv s)
    (hq : Holds unbondingQueueKey (view s) toTime S.store.ubdQueue) (ctx : Context)
    (hnow : InYearRange (toTime ctx.time)) :
    Holds unbondingQueueKey (view (dequeueAllMatureUBDQueue st s (toTime ctx.time)).1) toTime
        (Staking.dequeueAllMatureUBDQueue ctx S).1.store.ubdQueue ∧
      (dequeueAllMatureUBDQueue st s (toTime ctx.time)).2 = (Staking.dequeueAllMatureUBDQueue ctx S).2 := by
  obtain ⟨-, h2, h3⟩ := dequeueAllMatureQueue_simulates unbondingQueueKey hst hmono hs hq hnow
  obtain ⟨e1, e2⟩ := Staking.dequeueAllMatureUBDQueue_eq ctx S
  rw [e1, e2]
  exact ⟨h2, h3⟩

omit hmono in
theorem dequeueAllMatureUBDQueue_refines_queued :
    Holds unbondingQueueKey (amapView (dequeueAllMatureUBDQueue amapOps ubdQueueStore (ofUnixNano 5)).1)
        ofUnixNano (Staking.dequeueAllMatureUBDQueue ⟨1, 5⟩ queuedGenesis).1.store.ubdQueue ∧
      (dequeueAllMatureUBDQueue amapOps ubdQueueStore (ofUnixNano 5)).2 =
        (Staking.dequeueAllMatureUBDQueue ⟨1, 5⟩ queuedGenesis).2 :=
  dequeueAllMatureUBDQueue_refines timeMono_ofUnixNano queuedGenesis amapOps_refines_amapView
    trivial ubdQueueStore_holds ⟨1, 5⟩ (by decide)

theorem dequeueAllMatureRedelegationQueue_refines
    {st : Ops σ (List UInt8) (List (Bank.AccAddress × ValAddress × ValAddress))}
    {view : σ → List UInt8 → Option (List (Bank.AccAddress × ValAddress × ValAddress))}
    (hst : Refines st Inv view) {s : σ} (hs : Inv s)
    (hq : Holds redelegationQueueKey (view s) toTime S.store.redelegationQueue) (ctx : Context)
    (hnow : InYearRange (toTime ctx.time)) :
    Holds redelegationQueueKey (view (dequeueAllMatureRedelegationQueue st s (toTime ctx.time)).1)
        toTime (Staking.dequeueAllMatureRedelegationQueue ctx S).1.store.redelegationQueue ∧
      (dequeueAllMatureRedelegationQueue st s (toTime ctx.time)).2 =
        (Staking.dequeueAllMatureRedelegationQueue ctx S).2 := by
  obtain ⟨-, h2, h3⟩ := dequeueAllMatureQueue_simulates redelegationQueueKey hst hmono hs hq hnow
  obtain ⟨e1, e2⟩ := Staking.dequeueAllMatureRedelegationQueue_eq ctx S
  rw [e1, e2]
  exact ⟨h2, h3⟩

omit hmono in
theorem dequeueAllMatureRedelegationQueue_refines_queued :
    Holds redelegationQueueKey
        (amapView (dequeueAllMatureRedelegationQueue amapOps redelegationQueueStore (ofUnixNano 5)).1)
        ofUnixNano
        (Staking.dequeueAllMatureRedelegationQueue ⟨1, 5⟩ queuedGenesis).1.store.redelegationQueue ∧
      (dequeueAllMatureRedelegationQueue amapOps redelegationQueueStore (ofUnixNano 5)).2 =
        (Staking.dequeueAllMatureRedelegationQueue ⟨1, 5⟩ queuedGenesis).2 :=
  dequeueAllMatureRedelegationQueue_refines timeMono_ofUnixNano queuedGenesis
    amapOps_refines_amapView trivial redelegationQueueStore_holds ⟨1, 5⟩ (by decide)

theorem insertUBDQueue_refines
    {st : Ops σ (List UInt8) (List (Bank.AccAddress × ValAddress))}
    {view : σ → List UInt8 → Option (List (Bank.AccAddress × ValAddress))}
    (hst : Refines st Inv view) {s : σ} (hs : Inv s)
    (hq : Holds unbondingQueueKey (view s) toTime S.store.ubdQueue) (delAddr : Bank.AccAddress)
    (valAddr : ValAddress) {t : Nat} (ht : InYearRange (toTime t)) :
    Holds unbondingQueueKey (view (insertUBDQueue st s delAddr valAddr (toTime t))) toTime
      (Staking.insertUBDQueue S delAddr valAddr t).store.ubdQueue := by
  rw [Staking.insertUBDQueue_ubdQueue]
  exact (insertQueue_simulates unbondingQueueKey hst hmono hs hq ht _).2

omit hmono in
theorem insertUBDQueue_refines_genesis :
    Holds unbondingQueueKey
      (amapView (insertUBDQueue amapOps (∅ : AList fun _ : List UInt8 => List (Bank.AccAddress × ValAddress)) delegatorD operatorA (ofUnixNano 7))) ofUnixNano
      (Staking.insertUBDQueue redelegationGenesis delegatorD operatorA 7).store.ubdQueue :=
  insertUBDQueue_refines timeMono_ofUnixNano redelegationGenesis amapOps_refines_amapView trivial
    (holds_empty unbondingQueueKey ofUnixNano) delegatorD operatorA
    (by decide)

theorem deleteValidatorQueue_refines {st : Ops σ (List UInt8) (List ValAddress)}
    {view : σ → List UInt8 → Option (List ValAddress)} (hst : Refines st Inv view) {s : σ}
    (hs : Inv s) (hq : Holds validatorQueueKey (view s) toTime S.store.validatorQueue)
    (addr : ValAddress) (validator : Validator)
    (ht : InYearRange (toTime validator.unbondingCompletionTime)) :
    Holds validatorQueueKey
      (view (deleteValidatorQueue st s addr (toTime validator.unbondingCompletionTime))) toTime
      (Staking.deleteValidatorQueue S addr validator).store.validatorQueue := by
  rw [Staking.deleteValidatorQueue_validatorQueue]
  exact (removeQueue_simulates validatorQueueKey hst hmono hs hq ht _).2

omit hmono in
theorem deleteValidatorQueue_refines_queued :
    Holds validatorQueueKey
      (amapView (deleteValidatorQueue amapOps validatorQueueStore operatorA
        (ofUnixNano unbondingA.unbondingCompletionTime))) ofUnixNano
      (Staking.deleteValidatorQueue queuedGenesis operatorA unbondingA).store.validatorQueue :=
  deleteValidatorQueue_refines timeMono_ofUnixNano queuedGenesis amapOps_refines_amapView trivial
    validatorQueueStore_holds operatorA unbondingA (by decide)

/-- `GetAllMatureValidatorQueue` returns the addresses of the model's mature validator slices in
time order, the slices `UnbondAllMatureValidatorQueue` completes. -/
theorem getAllMatureValidatorQueue_eq {st : Ops σ (List UInt8) (List ValAddress)}
    {view : σ → List UInt8 → Option (List ValAddress)} (hst : Refines st Inv view) {s : σ}
    (hs : Inv s) (hq : Holds validatorQueueKey (view s) toTime S.store.validatorQueue)
    (ctx : Context) (hnow : InYearRange (toTime ctx.time)) :
    getAllMatureValidatorQueue st s (toTime ctx.time) =
      (matureSlices S.store.validatorQueue ctx.time).flatMap Prod.snd :=
  getAllMatureQueue_eq validatorQueueKey hst hmono hs hq hnow

omit hmono in
theorem getAllMatureValidatorQueue_eq_queued :
    getAllMatureValidatorQueue amapOps validatorQueueStore (ofUnixNano 5) =
      (matureSlices queuedGenesis.store.validatorQueue 5).flatMap Prod.snd :=
  getAllMatureValidatorQueue_eq timeMono_ofUnixNano queuedGenesis amapOps_refines_amapView trivial
    validatorQueueStore_holds ⟨1, 5⟩ (by decide)

end Keeper

end KV

end Barkis.Staking
