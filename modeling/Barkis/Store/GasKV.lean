import Barkis.Store.Gas
import Barkis.Store.CacheKV
import Barkis.Lib.Lex

/-!
# The gas-metered store

`store/gaskv/store.go`. A `gaskv.Store` charges its gas meter before it passes a call on to its
parent: `Get` a flat cost and a cost per byte of the value read, `Set` a flat cost and a cost per
byte of the value written, `Has` and `Delete` a flat cost, and an iterator the seek cost
(`consumeSeekGas`) of the item it opens at and of every item a `Next` leaves. A panic of the
meter stops the call.

Calls run in `EStateM GasError GasMeter`: the meter is the state and a panic the error, so the
meter keeps what the failing `ConsumeGas` set, as in Go. An iteration (`iterate`) is the iterator
with the caller's loop `for ; Valid(); Next()` run to its end.

* `run_eq_consumeAll`: a run of calls is the charges of the parent's answers (`charges`), then the
  parent's run: metering changes no store and no answer.
* `run_of_takes`, `run_error_iff`: a run ends with the parent's results and the meter advanced by
  exactly the charges when the meter takes their total (`Takes`), and panics otherwise.
* `run_answers_eq`: over two stores that refine one map, the metered runs charge and answer alike,
  whatever else the stores hold (a cache and its parent, say).
* `iterate_takes`: a full iteration over `n` items takes `n + 1` flat seek costs and the cost per
  byte of every value, the first one twice.
-/

namespace Barkis.Store.GasKV

open KVStore Barkis.Lex

/-- `GasConfig`. -/
structure GasConfig where
  hasCost : Gas
  deleteCost : Gas
  readCostFlat : Gas
  readCostPerByte : Gas
  writeCostFlat : Gas
  writeCostPerByte : Gas
  iterNextCostFlat : Gas
deriving DecidableEq, Repr

/-- `KVGasConfig`. -/
def kvGasConfig : GasConfig := ⟨1000, 1000, 1000, 3, 2000, 30, 30⟩

/-- `GasIterNextCostFlatDesc`. -/
def gasIterNextCostFlatDesc : String := "IterNextFlat"

/-- `GasValuePerByteDesc`. -/
def gasValuePerByteDesc : String := "ValuePerByte"

/-- `GasWritePerByteDesc`. -/
def gasWritePerByteDesc : String := "WritePerByte"

/-- `GasReadPerByteDesc`. -/
def gasReadPerByteDesc : String := "ReadPerByte"

/-- `GasWriteCostFlatDesc`. -/
def gasWriteCostFlatDesc : String := "WriteFlat"

/-- `GasReadCostFlatDesc`. -/
def gasReadCostFlatDesc : String := "ReadFlat"

/-- `GasHasDesc`. -/
def gasHasDesc : String := "Has"

/-- `GasDeleteDesc`. -/
def gasDeleteDesc : String := "Delete"

/-- A computation on the gas meter of a context; a panic of the meter is its error. -/
abbrev GasM := EStateM GasError GasMeter

/-- `ConsumeGas` on the meter of the context. -/
def consumeGas (amount : Gas) (descriptor : String) : GasM Unit := fun g =>
  match g.consumeGas amount descriptor with
  | (g', some e) => .error e g'
  | (g', none) => .ok () g'

/-! ## The store -/

section Store

variable {σ K : Type} (parent : Ops σ K (List UInt8)) (gasConfig : GasConfig)

/-- `Get`. -/
def get (s : σ) (key : K) : GasM (σ × Option (List UInt8)) := do
  consumeGas gasConfig.readCostFlat gasReadCostFlatDesc
  let r := parent.get s key
  -- a missing value is `nil`, of length `0`
  consumeGas (gasConfig.readCostPerByte * (r.2.getD []).length.toUInt64) gasReadPerByteDesc
  return r

/-- `Set`. A value here is a byte list, never `nil`, so `AssertValidValue` passes. -/
def set (s : σ) (key : K) (value : List UInt8) : GasM σ := do
  consumeGas gasConfig.writeCostFlat gasWriteCostFlatDesc
  consumeGas (gasConfig.writeCostPerByte * value.length.toUInt64) gasWritePerByteDesc
  return parent.set s key value

/-- `Has`; the parent's `Has` is whether its `Get` finds a value. -/
def has (s : σ) (key : K) : GasM (σ × Bool) := do
  consumeGas gasConfig.hasCost gasHasDesc
  let r := parent.get s key
  return (r.1, r.2.isSome)

/-- `Delete`. -/
def delete (s : σ) (key : K) : GasM σ := do
  consumeGas gasConfig.deleteCost gasDeleteDesc
  return parent.delete s key

/-- `gasIterator.consumeSeekGas`, at an item with value `value`. -/
def consumeSeekGas (value : List UInt8) : GasM Unit := do
  consumeGas (gasConfig.readCostPerByte * value.length.toUInt64) gasValuePerByteDesc
  consumeGas gasConfig.iterNextCostFlat gasIterNextCostFlatDesc

/-- `iterator`: the parent's iterator, given by the items it visits, and the seek gas of the first
when it is valid. -/
def iterator (s : σ) (start stop : Option K) (ascending : Bool) :
    GasM (σ × List (K × List UInt8)) := do
  let r := parent.iterator s start stop ascending
  match r.2 with
  | [] => pure ()
  | (_, value) :: _ => consumeSeekGas gasConfig value
  return r

/-- The caller's loop `for ; iter.Valid(); iter.Next()` over the items left: `Next` on a valid
gas iterator charges the seek gas of the item it leaves. -/
def drain : List (K × List UInt8) → GasM Unit
  | [] => pure ()
  | (_, value) :: items => do
    consumeSeekGas gasConfig value
    drain items

/-- An iteration read to its end. -/
def iterate (s : σ) (start stop : Option K) (ascending : Bool) :
    GasM (σ × List (K × List UInt8)) := do
  let r ← iterator parent gasConfig s start stop ascending
  drain gasConfig r.2
  return r

/-- The calls in order on the metered store, collecting the answers of the reads. -/
def run : σ → List (Op K (List UInt8)) → GasM (σ × List (Out K (List UInt8)))
  | s, [] => pure (s, [])
  | s, .get k :: ops => do
    let r ← get parent gasConfig s k
    let rs ← run r.1 ops
    return (rs.1, .value r.2 :: rs.2)
  | s, .set k v :: ops => do
    let s ← set parent gasConfig s k v
    run s ops
  | s, .delete k :: ops => do
    let s ← delete parent gasConfig s k
    run s ops
  | s, .iterate a b asc :: ops => do
    let r ← iterate parent gasConfig s a b asc
    let rs ← run r.1 ops
    return (rs.1, .items r.2 :: rs.2)

end Store

/-! ## Charges

Every call's gas is a list of charges, each an amount with its descriptor, that depends on the
parent's answer only; `consumeAll` takes them in order. -/

/-- `ConsumeGas` of each charge in turn. -/
def consumeAll : List (Gas × String) → GasM Unit
  | [] => pure ()
  | (amount, descriptor) :: cs => do
    consumeGas amount descriptor
    consumeAll cs

/-- The gas of the charges. -/
def chargeTotal (cs : List (Gas × String)) : Nat := (cs.map fun c => c.1.toNat).sum

section Charges

variable {K : Type} (gasConfig : GasConfig)

/-- The charges of a `Get` that reads `value`. -/
def getCharges (value : Option (List UInt8)) : List (Gas × String) :=
  [(gasConfig.readCostFlat, gasReadCostFlatDesc),
    (gasConfig.readCostPerByte * (value.getD []).length.toUInt64, gasReadPerByteDesc)]

/-- The charges of a `Set` of `value`. -/
def setCharges (value : List UInt8) : List (Gas × String) :=
  [(gasConfig.writeCostFlat, gasWriteCostFlatDesc),
    (gasConfig.writeCostPerByte * value.length.toUInt64, gasWritePerByteDesc)]

/-- The charge of a `Delete`. -/
def deleteCharges : List (Gas × String) := [(gasConfig.deleteCost, gasDeleteDesc)]

/-- The charges of `consumeSeekGas` at an item with value `value`. -/
def seekCharges (value : List UInt8) : List (Gas × String) :=
  [(gasConfig.readCostPerByte * value.length.toUInt64, gasValuePerByteDesc),
    (gasConfig.iterNextCostFlat, gasIterNextCostFlatDesc)]

/-- The charges of an iteration over `items` read to its end: the seek at the first item when the
iterator opens, then one seek for each `Next`. -/
def iterateCharges (items : List (K × List UInt8)) : List (Gas × String) :=
  (items.head?.map fun item => seekCharges gasConfig item.2).getD [] ++
    items.flatMap fun item => seekCharges gasConfig item.2

/-- The charges of a run of calls whose reads answered `outs`. -/
def charges : List (Op K (List UInt8)) → List (Out K (List UInt8)) → List (Gas × String)
  | [], _ => []
  | .get _ :: ops, .value v :: outs => getCharges gasConfig v ++ charges ops outs
  | .set _ v :: ops, outs => setCharges gasConfig v ++ charges ops outs
  | .delete _ :: ops, outs => deleteCharges gasConfig ++ charges ops outs
  | .iterate _ _ _ :: ops, .items l :: outs => iterateCharges gasConfig l ++ charges ops outs
  -- answers that do not match the calls: no run gives them
  | .get _ :: _, .items _ :: _ => []
  | .get _ :: _, [] => []
  | .iterate _ _ _ :: _, .value _ :: _ => []
  | .iterate _ _ _ :: _, [] => []

end Charges

theorem consumeAll_append (cs ds : List (Gas × String)) :
    consumeAll (cs ++ ds) = (do consumeAll cs; consumeAll ds) := by
  induction cs with
  | nil => simp [consumeAll]
  | cons c cs ih => simp [consumeAll, ih]

section Store

variable {σ K : Type} (parent : Ops σ K (List UInt8)) (gasConfig : GasConfig)

theorem get_eq (s : σ) (key : K) :
    get parent gasConfig s key =
      (do consumeAll (getCharges gasConfig (parent.get s key).2); pure (parent.get s key)) := by
  simp [get, getCharges, consumeAll]

theorem set_eq (s : σ) (key : K) (value : List UInt8) :
    set parent gasConfig s key value =
      (do consumeAll (setCharges gasConfig value); pure (parent.set s key value)) := by
  simp [set, setCharges, consumeAll]

theorem delete_eq (s : σ) (key : K) :
    delete parent gasConfig s key =
      (do consumeAll (deleteCharges gasConfig); pure (parent.delete s key)) := by
  simp [delete, deleteCharges, consumeAll]

theorem consumeSeekGas_eq (value : List UInt8) :
    consumeSeekGas gasConfig value = consumeAll (seekCharges gasConfig value) := by
  simp [consumeSeekGas, seekCharges, consumeAll]

theorem drain_eq (items : List (K × List UInt8)) :
    drain gasConfig items = consumeAll (items.flatMap fun item => seekCharges gasConfig item.2) := by
  induction items with
  | nil => rfl
  | cons item items ih => simp [drain, ih, consumeSeekGas_eq, consumeAll_append]

theorem iterate_eq (s : σ) (start stop : Option K) (ascending : Bool) :
    iterate parent gasConfig s start stop ascending =
      (do consumeAll (iterateCharges gasConfig (parent.iterator s start stop ascending).2)
          pure (parent.iterator s start stop ascending)) := by
  rcases h : (parent.iterator s start stop ascending).2 with _ | ⟨⟨k, v⟩, items⟩
  · simp [iterate, iterator, h, drain, iterateCharges, consumeAll]
  · simp [iterate, iterator, h, drain_eq, consumeSeekGas_eq, iterateCharges, consumeAll_append]

/-- A metered run is the charges of the parent's answers, then the parent's run. -/
theorem run_eq_consumeAll (ops : List (Op K (List UInt8))) (s : σ) :
    run parent gasConfig s ops =
      (do consumeAll (charges gasConfig ops (KVStore.run parent s ops).2)
          pure (KVStore.run parent s ops)) := by
  induction ops generalizing s with
  | nil => simp [run, KVStore.run, charges, consumeAll]
  | cons op ops ih =>
    cases op with
    | get k => simp [run, KVStore.run, charges, get_eq, ih, consumeAll_append]
    | set k v => simp [run, KVStore.run, charges, set_eq, ih, consumeAll_append]
    | delete k => simp [run, KVStore.run, charges, delete_eq, ih, consumeAll_append]
    | iterate a b asc => simp [run, KVStore.run, charges, iterate_eq, ih, consumeAll_append]

end Store

/-! ## What a meter takes -/

/-- The meter takes `n` more gas without a panic: within the limit of a basic meter, below the
overflow of an infinite one. -/
def Takes : GasMeter → Nat → Prop
  | .basic limit consumed, n => consumed.toNat + n ≤ limit.toNat
  | .infinite consumed, n => consumed.toNat + n < 2 ^ 64

instance instDecidableTakes (g : GasMeter) (n : Nat) : Decidable (Takes g n) :=
  match g with
  | .basic limit consumed => inferInstanceAs (Decidable (consumed.toNat + n ≤ limit.toNat))
  | .infinite consumed => inferInstanceAs (Decidable (consumed.toNat + n < 2 ^ 64))

/-- The meter with `n` more gas consumed. -/
def addGas : GasMeter → Nat → GasMeter
  | .basic limit consumed, n => .basic limit (consumed + n.toUInt64)
  | .infinite consumed, n => .infinite (consumed + n.toUInt64)

theorem takes_of_le {g : GasMeter} {m n : Nat} (h : Takes g n) (hmn : m ≤ n) : Takes g m := by
  cases g with
  | basic limit consumed => simp only [Takes] at h ⊢; omega
  | infinite consumed => simp only [Takes] at h ⊢; omega

theorem addGas_addGas (g : GasMeter) (m n : Nat) : addGas (addGas g m) n = addGas g (m + n) := by
  cases g with
  | basic limit consumed => simp [addGas, UInt64.ofNat_add, UInt64.add_assoc]
  | infinite consumed => simp [addGas, UInt64.ofNat_add, UInt64.add_assoc]

theorem toNat_add_toUInt64 {a : Gas} {m : Nat} (h : a.toNat + m < 2 ^ 64) :
    (a + m.toUInt64).toNat = a.toNat + m := by
  have hsize : UInt64.size = 2 ^ 64 := rfl
  rw [UInt64.toNat_add, UInt64.toNat_ofNat_of_lt' (by omega)]
  omega

/-- Once a meter has taken `m`, it takes `n` more when it takes `m + n` to begin with. -/
theorem takes_addGas_iff {g : GasMeter} {m n : Nat} (h : Takes g m) :
    Takes (addGas g m) n ↔ Takes g (m + n) := by
  cases g with
  | basic limit consumed =>
    have hl := limit.toNat_lt
    simp only [Takes] at h
    simp only [Takes, addGas, toNat_add_toUInt64 (show consumed.toNat + m < 2 ^ 64 by omega)]
    omega
  | infinite consumed =>
    simp only [Takes] at h
    simp only [Takes, addGas, toNat_add_toUInt64 h]
    omega

theorem consumeGas_infinite_of_lt {consumed amount : Gas}
    (h : consumed.toNat + amount.toNat < 2 ^ 64) (descriptor : String) :
    GasMeter.consumeGas (.infinite consumed) amount descriptor = (.infinite (consumed + amount), none) := by
  have ho : ¬2 ^ 64 ≤ consumed.toNat + amount.toNat := by omega
  simp only [GasMeter.consumeGas, addUint64Overflow_eq, if_neg ho, Bool.false_eq_true, if_false]

theorem consumeGas_infinite_isSome_of_le {consumed amount : Gas}
    (h : 2 ^ 64 ≤ consumed.toNat + amount.toNat) (descriptor : String) :
    (GasMeter.consumeGas (.infinite consumed) amount descriptor).2.isSome = true := by
  simp only [GasMeter.consumeGas, addUint64Overflow_eq, if_pos h, if_true, Option.isSome_some]

theorem run_consumeGas (amount : Gas) (descriptor : String) (g : GasMeter) :
    (consumeGas amount descriptor).run g =
      match g.consumeGas amount descriptor with
      | (g', some e) => .error e g'
      | (g', none) => .ok () g' := rfl

/-- A meter that takes the amount consumes it. -/
theorem consumeGas_run_of_takes {g : GasMeter} {amount : Gas} (h : Takes g amount.toNat)
    (descriptor : String) : (consumeGas amount descriptor).run g = .ok () (addGas g amount.toNat) := by
  have hamount : amount.toNat.toUInt64 = amount := by simp only [Nat.toUInt64_eq, UInt64.ofNat_toNat]
  cases g with
  | basic limit consumed => rw [run_consumeGas, GasMeter.consumeGas_basic_of_le h, addGas, hamount]
  | infinite consumed => rw [run_consumeGas, consumeGas_infinite_of_lt h, addGas, hamount]

/-- A meter that does not take the amount panics. -/
theorem consumeGas_run_error {g : GasMeter} {amount : Gas} (h : ¬Takes g amount.toNat)
    (descriptor : String) : ∃ e g', (consumeGas amount descriptor).run g = .error e g' := by
  -- the meter's answer is a panic, whichever the meter
  have hs : (g.consumeGas amount descriptor).2.isSome = true := by
    cases g with
    | basic limit consumed =>
      exact GasMeter.consumeGas_basic_isSome_of_lt (by simp only [Takes] at h; omega) descriptor
    | infinite consumed =>
      exact consumeGas_infinite_isSome_of_le (by simp only [Takes] at h; omega) descriptor
  rcases hc : g.consumeGas amount descriptor with ⟨g', _ | e⟩
  · rw [hc] at hs
    exact absurd hs Bool.false_ne_true
  · exact ⟨e, g', by rw [run_consumeGas, hc]⟩

@[simp]
theorem addGas_zero (g : GasMeter) : addGas g 0 = g := by
  cases g with
  | basic limit consumed => exact congrArg _ (UInt64.add_zero consumed)
  | infinite consumed => exact congrArg _ (UInt64.add_zero consumed)

theorem chargeTotal_cons (c : Gas × String) (cs : List (Gas × String)) :
    chargeTotal (c :: cs) = c.1.toNat + chargeTotal cs := by
  simp [chargeTotal]

theorem chargeTotal_append (cs ds : List (Gas × String)) :
    chargeTotal (cs ++ ds) = chargeTotal cs + chargeTotal ds := by
  simp [chargeTotal]

/-- Charges that the meter takes in total are consumed, one after the other. -/
theorem consumeAll_run_of_takes :
    ∀ (cs : List (Gas × String)) (g : GasMeter), Takes g (chargeTotal cs) →
      (consumeAll cs).run g = .ok () (addGas g (chargeTotal cs))
  | [], g, _ => by rw [chargeTotal, List.map_nil, List.sum_nil, addGas_zero]; rfl
  | (amount, descriptor) :: cs, g, h => by
    rw [chargeTotal_cons] at h ⊢
    have hhead : Takes g amount.toNat := takes_of_le h (Nat.le_add_right _ _)
    have hrest := consumeAll_run_of_takes cs _ ((takes_addGas_iff hhead).2 h)
    rw [addGas_addGas] at hrest
    rw [consumeAll, EStateM.run_bind, consumeGas_run_of_takes hhead]
    exact hrest

/-- Charges that a meter within its limit does not take in total end in a panic. -/
theorem consumeAll_run_error :
    ∀ (cs : List (Gas × String)) (g : GasMeter), Takes g 0 → ¬Takes g (chargeTotal cs) →
      ∃ e g', (consumeAll cs).run g = .error e g'
  | [], _, hg, h => absurd hg h
  | (amount, descriptor) :: cs, g, hg, h => by
    rw [chargeTotal_cons] at h
    by_cases hhead : Takes g amount.toNat
    · -- the first charge passes, and the rest is more than what is left
      have hg' : Takes (addGas g amount.toNat) 0 := (takes_addGas_iff hhead).2 hhead
      obtain ⟨e, g', hrest⟩ :=
        consumeAll_run_error cs _ hg' (fun h' => h ((takes_addGas_iff hhead).1 h'))
      exact ⟨e, g', by rw [consumeAll, EStateM.run_bind, consumeGas_run_of_takes hhead]; exact hrest⟩
    · obtain ⟨e, g', hfirst⟩ := consumeGas_run_error hhead descriptor
      exact ⟨e, g', by rw [consumeAll, EStateM.run_bind, hfirst]⟩

/-- A per-byte charge is the product of the cost and the length when it does not wrap. -/
theorem toNat_mul_toUInt64 {cost : Gas} {n : Nat} (h : cost.toNat * n < 2 ^ 64) :
    (cost * n.toUInt64).toNat = cost.toNat * n := by
  have hsize : UInt64.size = 2 ^ 64 := rfl
  rcases Nat.eq_zero_or_pos cost.toNat with h0 | hpos
  · rw [UInt64.toNat_mul, h0, Nat.zero_mul, Nat.zero_mul, Nat.zero_mod]
  · -- a nonzero cost bounds the length below the word
    have hn : n < 2 ^ 64 := lt_of_le_of_lt (Nat.le_mul_of_pos_left n hpos) h
    rw [UInt64.toNat_mul, Nat.toUInt64_eq, UInt64.toNat_ofNat_of_lt' (by omega), Nat.mod_eq_of_lt h]

section Iterate

variable {K : Type} (gasConfig : GasConfig)

/-- The seeks over `items`, one each, when no per-byte charge wraps. -/
theorem chargeTotal_flatMap_seekCharges (items : List (K × List UInt8))
    (hbytes : ∀ item ∈ items, gasConfig.readCostPerByte.toNat * item.2.length < 2 ^ 64) :
    chargeTotal (items.flatMap fun item => seekCharges gasConfig item.2) =
      gasConfig.readCostPerByte.toNat * (items.map fun item => item.2.length).sum +
        items.length * gasConfig.iterNextCostFlat.toNat := by
  induction items with
  | nil => simp [chargeTotal]
  | cons item items ih =>
    have hhead := toNat_mul_toUInt64 (hbytes item List.mem_cons_self)
    rw [List.flatMap_cons, chargeTotal_append, ih fun i hi => hbytes i (List.mem_cons_of_mem _ hi),
      seekCharges, chargeTotal_cons, chargeTotal_cons, hhead, List.map_cons, List.sum_cons,
      List.length_cons]
    simp only [chargeTotal, List.map_nil, List.sum_nil]
    ring

end Iterate

section Run

variable {σ K : Type} (parent : Ops σ K (List UInt8)) (gasConfig : GasConfig)

/-- A meter that takes the charges of a run ends it with the parent's store and answers, having
consumed exactly the charges. -/
theorem run_of_takes (s : σ) (ops : List (Op K (List UInt8))) {g : GasMeter}
    (h : Takes g (chargeTotal (charges gasConfig ops (KVStore.run parent s ops).2))) :
    (run parent gasConfig s ops).run g =
      .ok (KVStore.run parent s ops)
        (addGas g (chargeTotal (charges gasConfig ops (KVStore.run parent s ops).2))) := by
  rw [run_eq_consumeAll, EStateM.run_bind, consumeAll_run_of_takes _ _ h]
  rfl

theorem run_of_takes_amap :
    Takes (.basic 100000 0) (chargeTotal (charges kvGasConfig [.set [1] [7, 8], .get [1], .iterate none none true]
      (KVStore.run amapOps (∅ : AList fun _ : List UInt8 => List UInt8)
        [.set [1] [7, 8], .get [1], .iterate none none true]).2)) ∧
    (run amapOps kvGasConfig (∅ : AList fun _ : List UInt8 => List UInt8)
        [.set [1] [7, 8], .get [1], .iterate none none true]).run (.basic 100000 0) =
      .ok (KVStore.run amapOps ∅ [.set [1] [7, 8], .get [1], .iterate none none true])
        (addGas (.basic 100000 0) (chargeTotal (charges kvGasConfig
          [.set [1] [7, 8], .get [1], .iterate none none true]
          (KVStore.run amapOps (∅ : AList fun _ : List UInt8 => List UInt8)
            [.set [1] [7, 8], .get [1], .iterate none none true]).2))) :=
  ⟨by decide +kernel, run_of_takes amapOps kvGasConfig ∅ _ (by decide +kernel)⟩

/-- From a meter within its limit, a run panics exactly when the meter does not take its
charges. -/
theorem run_error_iff (s : σ) (ops : List (Op K (List UInt8))) {g : GasMeter} (hg : Takes g 0) :
    (∃ e g', (run parent gasConfig s ops).run g = .error e g') ↔
      ¬Takes g (chargeTotal (charges gasConfig ops (KVStore.run parent s ops).2)) := by
  rw [run_eq_consumeAll]
  constructor
  · rintro ⟨e, g', he⟩ h
    rw [EStateM.run_bind, consumeAll_run_of_takes _ _ h] at he
    cases he
  · intro h
    obtain ⟨e, g', he⟩ := consumeAll_run_error _ g hg h
    exact ⟨e, g', by rw [EStateM.run_bind, he]⟩

theorem run_error_iff_amap :
    Takes (.basic 3000 0) 0 ∧
      ((∃ e g', (run amapOps kvGasConfig (∅ : AList fun _ : List UInt8 => List UInt8)
          [.set [1] [7, 8], .get [1]]).run (.basic 3000 0) = .error e g') ↔
        ¬Takes (.basic 3000 0) (chargeTotal (charges kvGasConfig [.set [1] [7, 8], .get [1]]
          (KVStore.run amapOps (∅ : AList fun _ : List UInt8 => List UInt8)
            [.set [1] [7, 8], .get [1]]).2))) :=
  ⟨by decide, run_error_iff amapOps kvGasConfig ∅ _ (by decide)⟩

/-- A full iteration over `(k, value) :: rest`, when no per-byte charge wraps and the meter takes
it, costs `n + 1` flat seeks for its `n` items and the cost per byte of every value, the first
value's twice: once when the iterator opens and once when the first `Next` leaves it. -/
theorem iterate_takes (s : σ) (start stop : Option K) (ascending : Bool) {k : K}
    {value : List UInt8} {rest : List (K × List UInt8)}
    (hitems : (parent.iterator s start stop ascending).2 = (k, value) :: rest)
    (hbytes : ∀ item ∈ (k, value) :: rest,
      gasConfig.readCostPerByte.toNat * item.2.length < 2 ^ 64) {g : GasMeter}
    (hg : Takes g (gasConfig.readCostPerByte.toNat *
        (value.length + (((k, value) :: rest).map fun item => item.2.length).sum) +
      (rest.length + 2) * gasConfig.iterNextCostFlat.toNat)) :
    (iterate parent gasConfig s start stop ascending).run g =
      .ok (parent.iterator s start stop ascending)
        (addGas g (gasConfig.readCostPerByte.toNat *
            (value.length + (((k, value) :: rest).map fun item => item.2.length).sum) +
          (rest.length + 2) * gasConfig.iterNextCostFlat.toNat)) := by
  have htotal : chargeTotal (iterateCharges gasConfig ((k, value) :: rest)) =
      gasConfig.readCostPerByte.toNat *
          (value.length + (((k, value) :: rest).map fun item => item.2.length).sum) +
        (rest.length + 2) * gasConfig.iterNextCostFlat.toNat := by
    have hfirst := toNat_mul_toUInt64 (hbytes (k, value) List.mem_cons_self)
    rw [iterateCharges, chargeTotal_append, chargeTotal_flatMap_seekCharges gasConfig _ hbytes]
    simp only [List.head?_cons, Option.map_some, Option.getD_some, seekCharges, chargeTotal_cons,
      hfirst, List.length_cons]
    simp only [chargeTotal, List.map_nil, List.sum_nil]
    ring
  rw [iterate_eq, EStateM.run_bind, hitems, consumeAll_run_of_takes _ _ (htotal ▸ hg), htotal]
  rfl

theorem iterate_takes_amap :
    (iterate amapOps kvGasConfig ((∅ : AList fun _ : List UInt8 => List UInt8).insert [1] [5, 6])
        none none true).run (.basic 1000 0) =
      .ok (amapOps.iterator ((∅ : AList fun _ : List UInt8 => List UInt8).insert [1] [5, 6])
          none none true)
        (addGas (.basic 1000 0) (kvGasConfig.readCostPerByte.toNat *
            (([5, 6] : List UInt8).length + ([(([1] : List UInt8), ([5, 6] : List UInt8))].map
              fun item : List UInt8 × List UInt8 => item.2.length).sum) +
          (([] : List (List UInt8 × List UInt8)).length + 2) * kvGasConfig.iterNextCostFlat.toNat)) :=
  iterate_takes amapOps kvGasConfig _ none none true (by decide +kernel) (by decide) (by decide)

end Run

section Refines

variable {K : Type} [LinearOrder K] {σ₁ σ₂ : Type}
  {st₁ : Ops σ₁ K (List UInt8)} {Inv₁ : σ₁ → Prop} {view₁ : σ₁ → K → Option (List UInt8)}
  {st₂ : Ops σ₂ K (List UInt8)} {Inv₂ : σ₂ → Prop} {view₂ : σ₂ → K → Option (List UInt8)}

/-- Two stores that refine one map charge a metered run alike and answer it alike, whatever else
they hold: the gas and the answers of a run, or its panic, depend on the map only. -/
theorem run_answers_eq (h₁ : Refines st₁ Inv₁ view₁) (h₂ : Refines st₂ Inv₂ view₂) {s₁ : σ₁}
    {s₂ : σ₂} (hs₁ : Inv₁ s₁) (hs₂ : Inv₂ s₂) (hv : view₁ s₁ = view₂ s₂) (gasConfig : GasConfig)
    (ops : List (Op K (List UInt8))) :
    Prod.snd <$> run st₁ gasConfig s₁ ops = Prod.snd <$> run st₂ gasConfig s₂ ops := by
  -- the map answers one way only
  have houts : (KVStore.run st₁ s₁ ops).2 = (KVStore.run st₂ s₂ ops).2 :=
    Answers.unique (run_refines h₁ ops s₁ hs₁).2.2 (hv ▸ (run_refines h₂ ops s₂ hs₂).2.2)
  simp only [run_eq_consumeAll, map_bind, map_pure, houts]

theorem run_answers_eq_cache :
    Prod.snd <$> run (CacheKV.cacheOps amapOps) kvGasConfig
        (CacheKV.newStore ((∅ : AList fun _ : List UInt8 => List UInt8).insert [1] [7]))
        [.get [1], .set [2] [3], .iterate none none true] =
      Prod.snd <$> run amapOps kvGasConfig ((∅ : AList fun _ : List UInt8 => List UInt8).insert [1] [7])
        [.get [1], .set [2] [3], .iterate none none true] :=
  run_answers_eq (CacheKV.refines_cacheOps amapOps_refines_amapView) amapOps_refines_amapView
    (CacheKV.coherent_newStore trivial) trivial (CacheKV.view_newStore _ _) kvGasConfig _

end Refines

end Barkis.Store.GasKV
