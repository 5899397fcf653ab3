import Barkis.Staking.EndBlock
import Barkis.Lib.StableSort
import Barkis.Lib.Simulation

/-!
# The time queues

`x/staking/keeper/delegation.go` and `x/staking/keeper/validator.go`. The staking keeper keeps
three queues by time: unbonding delegations, redelegations and unbonding validators. Each maps a
time to the slice of entries that mature then (`TimeQueue`). An insert puts its entry at the end
of its time's slice (`insertTimeSlice`), `DeleteValidatorQueue` takes an address out of its slice
(`removeTimeSlice`), and the end blocker takes out every slice up to the block time, in time
order, and concatenates them (`dequeueSlices`).

What a queue is for (`Pending`): its entries with their times, in the order they came in. A
dequeue at `now` returns the entries due by `now`, by time and in arrival order within a time,
and keeps the others.

* `SlicesOf q p`: the slice at every time holds the pending entries of that time, in order.
  Every call on the keeper's queue keeps it and answers as the spec (`slices_simulates`), so
  over every run the keeper's queue answers as the spec (`runSlices_eq_runPending`).
* `runPending_perm`: a run of the spec without removals loses and duplicates nothing: what it
  returned and what it keeps are the entries that came in.
* `insertUBDQueue_ubdQueue`, `deleteValidatorQueue_validatorQueue` and
  `dequeueAllMatureUBDQueue_eq`: the keeper's functions act on the store's queue as
  `insertTimeSlice`, `removeTimeSlice` and `dequeueSlices`.
-/

namespace Barkis.Staking

open StableSort Simulation

variable {α : Type}

/-- A queue of the store: the slice of entries at each time. -/
abbrev TimeQueue (α : Type) := AList fun _ : Nat => List α

/-- The queue after `InsertUBDQueue`, `InsertRedelegationQueue` or `InsertValidatorQueue`: the
entry goes at the end of its time's slice. -/
def insertTimeSlice (q : TimeQueue α) (t : Nat) (x : α) : TimeQueue α :=
  q.insert t ((q.lookup t).getD [] ++ [x])

/-- The queue after `DeleteValidatorQueue`: the entry leaves its time's slice, which is deleted
when nothing is left in it. -/
def removeTimeSlice [BEq α] (q : TimeQueue α) (t : Nat) (x : α) : TimeQueue α :=
  let newTimeSlice := ((q.lookup t).getD []).filter (· != x)
  if newTimeSlice.isEmpty then q.erase t else q.insert t newTimeSlice

/-- `DequeueAllMatureUBDQueue` and `DequeueAllMatureRedelegationQueue` on the queue: the queue
without its mature slices, and those slices concatenated in time order. -/
def dequeueSlices (q : TimeQueue α) (now : Nat) : TimeQueue α × List α :=
  ((matureSlices q now).foldl (fun q slice => q.erase slice.1) q,
    (matureSlices q now).flatMap Prod.snd)

/-! ## The keeper's queues -/

section Keeper

variable {σ : Type}

theorem insertUBDQueue_ubdQueue (s : State σ) (delAddr : Bank.AccAddress) (valAddr : ValAddress)
    (completionTime : Nat) :
    (insertUBDQueue s delAddr valAddr completionTime).store.ubdQueue =
      insertTimeSlice s.store.ubdQueue completionTime (delAddr, valAddr) := rfl

theorem deleteValidatorQueue_validatorQueue (s : State σ) (addr : ValAddress) (validator : Validator) :
    (deleteValidatorQueue s addr validator).store.validatorQueue =
      removeTimeSlice s.store.validatorQueue validator.unbondingCompletionTime addr := rfl

theorem dequeueAllMatureUBDQueue_eq (ctx : Context) (s : State σ) :
    (dequeueAllMatureUBDQueue ctx s).1.store.ubdQueue = (dequeueSlices s.store.ubdQueue ctx.time).1 ∧
      (dequeueAllMatureUBDQueue ctx s).2 = (dequeueSlices s.store.ubdQueue ctx.time).2 := ⟨rfl, rfl⟩

theorem dequeueAllMatureRedelegationQueue_eq (ctx : Context) (s : State σ) :
    (dequeueAllMatureRedelegationQueue ctx s).1.store.redelegationQueue =
        (dequeueSlices s.store.redelegationQueue ctx.time).1 ∧
      (dequeueAllMatureRedelegationQueue ctx s).2 = (dequeueSlices s.store.redelegationQueue ctx.time).2 :=
  ⟨rfl, rfl⟩

end Keeper

/-! ## The mature slices -/

theorem mem_matureSlices {q : TimeQueue α} {now : Nat} {e : Nat × List α} :
    e ∈ matureSlices q now ↔ e.1 ≤ now ∧ q.lookup e.1 = some e.2 := by
  rw [matureSlices, (List.perm_insertionSort _ _).mem_iff]
  obtain ⟨n, l⟩ := e
  simp only [List.mem_map, List.mem_filter, decide_eq_true_eq, Prod.mk.injEq]
  constructor
  · rintro ⟨⟨m, l'⟩, ⟨hm, hle⟩, rfl, rfl⟩
    exact ⟨hle, AList.mem_lookup_iff.2 hm⟩
  · rintro ⟨hle, hl⟩
    exact ⟨⟨n, l⟩, ⟨AList.mem_lookup_iff.1 hl, hle⟩, rfl, rfl⟩

theorem matureSlices_nodup_keys (q : TimeQueue α) (now : Nat) :
    ((matureSlices q now).map Prod.fst).Nodup := by
  have hperm := ((List.perm_insertionSort (fun a b : Nat × List α => decide (a.1 ≤ b.1))
    ((q.entries.filter fun e => e.1 ≤ now).map fun e => (e.1, e.2))).map Prod.fst)
  rw [matureSlices, hperm.nodup_iff, List.map_map]
  exact (List.filter_sublist.map Sigma.fst).nodup q.keys_nodup

/-- The mature slices come in strictly rising time. -/
theorem matureSlices_sorted (q : TimeQueue α) (now : Nat) :
    (matureSlices q now).Pairwise fun a b => a.1 < b.1 := by
  let r : Nat × List α → Nat × List α → Prop := fun a b => decide (a.1 ≤ b.1) = true
  have : Std.Total r := ⟨fun a b => by simpa [r] using le_total a.1 b.1⟩
  have : IsTrans _ r := ⟨fun a b c hab hbc => by simp only [r, decide_eq_true_eq] at *; omega⟩
  have hle : (matureSlices q now).Pairwise r := List.pairwise_insertionSort r _
  have hne : (matureSlices q now).Pairwise fun a b => a.1 ≠ b.1 :=
    List.pairwise_map.1 (matureSlices_nodup_keys q now)
  exact (hle.and hne).imp fun h => lt_of_le_of_ne (by simpa [r] using h.1) h.2

/-- A list strictly sorted by its first components has at most one member with a given one. -/
theorem filter_fst_eq_of_sorted {S : List (Nat × List α)} (hS : S.Pairwise fun a b => a.1 < b.1)
    (k : Nat) : S.filter (fun e => e.1 = k) = [] ∨
      ∃ e ∈ S, e.1 = k ∧ S.filter (fun e => e.1 = k) = [e] := by
  have hF : (S.filter fun e => e.1 = k).Pairwise fun a b => a.1 < b.1 := hS.filter _
  match hf : S.filter fun e => e.1 = k with
  | [] => exact .inl hf
  | [e] =>
    have he : e ∈ S.filter fun e => e.1 = k := by simp [hf]
    exact .inr ⟨e, (List.mem_filter.1 he).1, by simpa using (List.mem_filter.1 he).2, hf⟩
  | e :: e' :: rest =>
    have he : e ∈ S.filter fun e => e.1 = k := by simp [hf]
    have he' : e' ∈ S.filter fun e => e.1 = k := by simp [hf]
    rw [hf] at hF
    have hlt := List.rel_of_pairwise_cons hF List.mem_cons_self
    simp only [List.mem_filter, decide_eq_true_eq] at he he'
    omega

/-- The queue after the mature slices are deleted one by one. -/
theorem lookup_foldl_erase (S : List (Nat × List α)) (q : TimeQueue α) (n : Nat) :
    (S.foldl (fun q slice => q.erase slice.1) q).lookup n =
      if n ∈ S.map Prod.fst then none else q.lookup n := by
  induction S generalizing q with
  | nil => simp
  | cons e S ih =>
    rw [List.foldl_cons, ih]
    by_cases hn : n = e.1
    · subst hn
      simp
    · simp only [List.map_cons, List.mem_cons, hn, false_or, AList.lookup_erase_ne hn]

theorem mem_of_mem_matureSlices {q : TimeQueue α} {now : Nat} {e : Nat × List α}
    (he : e ∈ matureSlices q now) : e.1 ∈ q :=
  AList.lookup_isSome.1 (by rw [(mem_matureSlices.1 he).2]; rfl)

theorem lookup_removeTimeSlice [BEq α] (q : TimeQueue α) (t : Nat) (x : α) (n : Nat) :
    (removeTimeSlice q t x).lookup n =
      if n = t then
        if (((q.lookup t).getD []).filter (· != x)).isEmpty then none
        else some (((q.lookup t).getD []).filter (· != x))
      else q.lookup n := by
  simp only [removeTimeSlice]
  by_cases he : (((q.lookup t).getD []).filter (· != x)).isEmpty
  · rw [if_pos he]
    by_cases hn : n = t
    · rw [if_pos hn, if_pos he, hn, AList.lookup_erase]
    · rw [if_neg hn, AList.lookup_erase_ne hn]
  · rw [if_neg he]
    by_cases hn : n = t
    · rw [if_pos hn, if_neg he, hn, AList.lookup_insert]
    · rw [if_neg hn, AList.lookup_insert_ne hn]

/-! ## What a queue is for -/

/-- The entries of a queue with their times, in the order they came in. -/
abbrev Pending (α : Type) := List (Nat × α)

/-- A new entry comes last. -/
def Pending.insert (p : Pending α) (t : Nat) (x : α) : Pending α := p ++ [(t, x)]

/-- The entry leaves the queue at its time. -/
def Pending.remove [BEq α] (p : Pending α) (t : Nat) (x : α) : Pending α :=
  p.filter fun e => !(decide (e.1 = t) && e.2 == x)

/-- The entries not yet due, and those due at `now` by time, in arrival order within a time. -/
def Pending.dequeue (p : Pending α) (now : Nat) : Pending α × List α :=
  (p.filter fun e => now < e.1, (sortByKey Prod.fst (p.filter fun e => e.1 ≤ now)).map Prod.snd)

/-- The queue `q` holds the entries `p`: its slice at each time is the entries of that time, in
order. -/
def SlicesOf (q : TimeQueue α) (p : Pending α) : Prop :=
  ∀ n, (q.lookup n).getD [] = (keyClass Prod.fst p n).map Prod.snd

/-- A time class is its entries with their one time. -/
theorem keyClass_eq_map (p : Pending α) (n : Nat) :
    keyClass Prod.fst p n = ((keyClass Prod.fst p n).map Prod.snd).map (n, ·) := by
  rw [List.map_map]
  conv_lhs => rw [← List.map_id (keyClass Prod.fst p n)]
  refine List.map_congr_left fun e he => ?_
  rw [← (mem_keyClass.1 he).2]
  rfl

theorem SlicesOf.keyClass_eq {q : TimeQueue α} {p : Pending α} (h : SlicesOf q p) (n : Nat) :
    keyClass Prod.fst p n = ((q.lookup n).getD []).map (n, ·) := by
  rw [h n, ← keyClass_eq_map]

/-- The entries of slices, each with its slice's time. -/
def timed (S : List (Nat × List α)) : Pending α := S.flatMap fun e => e.2.map (e.1, ·)

theorem map_snd_timed (S : List (Nat × List α)) : (timed S).map Prod.snd = S.flatMap Prod.snd := by
  simp [timed, List.map_flatMap, Function.comp_def]

theorem keyClass_timed (S : List (Nat × List α)) (k : Nat) :
    keyClass Prod.fst (timed S) k = timed (S.filter fun e => e.1 = k) := by
  induction S with
  | nil => rfl
  | cons e S ih =>
    rw [timed, List.flatMap_cons, keyClass_append, ← timed, ih]
    by_cases he : e.1 = k
    · simp [keyClass, timed, he]
    · simp [keyClass, timed, he]

theorem keySorted_timed {S : List (Nat × List α)} (hS : S.Pairwise fun a b => a.1 < b.1) :
    KeySorted Prod.fst (timed S) := by
  refine List.pairwise_flatMap.2 ⟨fun e _ => ?_, hS.imp fun hab x hx y hy => ?_⟩
  · exact List.pairwise_map.2 (List.pairwise_of_forall_mem_list fun _ _ _ _ => le_rfl)
  · obtain ⟨_, -, rfl⟩ := List.mem_map.1 hx
    obtain ⟨_, -, rfl⟩ := List.mem_map.1 hy
    exact le_of_lt hab

/-- The mature slices, with their times, are the due entries sorted by time. -/
theorem timed_matureSlices {q : TimeQueue α} {p : Pending α} (h : SlicesOf q p) (now : Nat) :
    timed (matureSlices q now) = sortByKey Prod.fst (p.filter fun e => e.1 ≤ now) := by
  refine eq_sortByKey (keySorted_timed (matureSlices_sorted q now)) fun k => ?_
  rw [keyClass_timed, keyClass_filter_key Prod.fst (fun n => decide (n ≤ now)), h.keyClass_eq]
  rcases filter_fst_eq_of_sorted (matureSlices_sorted q now) k with hk | ⟨e, he, rfl, hk⟩
  · -- no mature slice at `k`: it is after `now`, or the queue has nothing at `k`
    rw [hk]
    by_cases hle : k ≤ now
    · cases hl : q.lookup k with
      | none => simp [hle, timed]
      | some l =>
        have hmem : (k, l) ∈ (matureSlices q now).filter fun e => e.1 = k :=
          List.mem_filter.2 ⟨(@mem_matureSlices _ q now (k, l)).2 ⟨hle, hl⟩, by simp⟩
        rw [hk] at hmem
        cases hmem
    · simp [hle, timed]
  · obtain ⟨hle, hl⟩ := mem_matureSlices.1 he
    simp [hk, hle, hl, timed]

theorem SlicesOf.dequeue_snd {q : TimeQueue α} {p : Pending α} (h : SlicesOf q p) (now : Nat) :
    (dequeueSlices q now).2 = (Pending.dequeue p now).2 := by
  rw [dequeueSlices, Pending.dequeue, ← timed_matureSlices h, map_snd_timed]

theorem SlicesOf.dequeue_fst {q : TimeQueue α} {p : Pending α} (h : SlicesOf q p) (now : Nat) :
    SlicesOf (dequeueSlices q now).1 (Pending.dequeue p now).1 := by
  intro n
  rw [dequeueSlices, Pending.dequeue, lookup_foldl_erase,
    keyClass_filter_key Prod.fst (fun n => decide (now < n))]
  by_cases hn : n ≤ now
  · -- due at `now`: the slice is gone, or was not there
    have hg : ¬decide (now < n) = true := by simpa using hn
    rw [if_neg hg]
    split_ifs with hmem
    · rfl
    · cases hl : q.lookup n with
      | none => rfl
      | some l =>
        exact absurd (List.mem_map.2 ⟨(n, l), (@mem_matureSlices _ q now (n, l)).2 ⟨hn, hl⟩, rfl⟩) hmem
  · have hmem : n ∉ (matureSlices q now).map Prod.fst := fun hm => by
      obtain ⟨e, he, rfl⟩ := List.mem_map.1 hm
      exact hn (mem_matureSlices.1 he).1
    have hg : decide (now < n) = true := by simpa using hn
    rw [if_neg hmem, if_pos hg, h n]

theorem SlicesOf.insert {q : TimeQueue α} {p : Pending α} (h : SlicesOf q p) (t : Nat) (x : α) :
    SlicesOf (insertTimeSlice q t x) (Pending.insert p t x) := by
  intro n
  rw [insertTimeSlice, Pending.insert, keyClass_append, List.map_append, ← h n]
  by_cases hn : n = t
  · subst hn
    simp [keyClass]
  · simp [keyClass, AList.lookup_insert_ne hn, Ne.symm hn]

theorem SlicesOf.remove [BEq α] [LawfulBEq α] {q : TimeQueue α} {p : Pending α} (h : SlicesOf q p)
    (t : Nat) (x : α) : SlicesOf (removeTimeSlice q t x) (Pending.remove p t x) := by
  intro n
  -- the removal filters the class of `t` and leaves the others
  have hcls : (keyClass Prod.fst (Pending.remove p t x) n).map Prod.snd =
      if n = t then ((keyClass Prod.fst p n).map Prod.snd).filter (· != x)
      else (keyClass Prod.fst p n).map Prod.snd := by
    simp only [keyClass, Pending.remove, List.filter_filter]
    split_ifs with hn
    · subst hn
      rw [List.filter_map, List.filter_filter]
      congr 1
      refine List.filter_congr fun e _ => ?_
      by_cases he : e.1 = n <;> simp [he, bne]
    · congr 1
      refine List.filter_congr fun e _ => ?_
      by_cases he : e.1 = n
      · simp [he, hn]
      · simp [he]
  rw [hcls, removeTimeSlice]
  by_cases hn : n = t
  · subst hn
    rw [if_pos rfl, ← h n]
    split_ifs with he
    · rw [AList.lookup_erase, Option.getD_none]
      exact (List.isEmpty_iff.1 he).symm
    · rw [AList.lookup_insert, Option.getD_some]
  · rw [if_neg hn, ← h n]
    split_ifs
    · rw [AList.lookup_erase_ne hn]
    · rw [AList.lookup_insert_ne hn]

/-! ## Runs -/

/-- A call on a queue: an insert, `DeleteValidatorQueue`, or the dequeue of the end blocker. -/
inductive QueueOp (α : Type)
  | insert (t : Nat) (x : α)
  | remove (t : Nat) (x : α)
  | dequeue (now : Nat)

/-- The time a call names. -/
def QueueOp.time : QueueOp α → Nat
  | .insert t _ => t
  | .remove t _ => t
  | .dequeue now => now

variable [BEq α]

/-- One call on the keeper's queue. -/
def stepSlices (q : TimeQueue α) : QueueOp α → TimeQueue α × List α
  | .insert t x => (insertTimeSlice q t x, [])
  | .remove t x => (removeTimeSlice q t x, [])
  | .dequeue now => dequeueSlices q now

/-- One call on the spec. -/
def stepPending (p : Pending α) : QueueOp α → Pending α × List α
  | .insert t x => (Pending.insert p t x, [])
  | .remove t x => (Pending.remove p t x, [])
  | .dequeue now => Pending.dequeue p now

theorem slices_simulates [LawfulBEq α] :
    Simulates (@stepSlices α _) stepPending (fun _ => True) SlicesOf := by
  intro q p op _ h
  cases op with
  | insert t x => exact ⟨h.insert t x, rfl⟩
  | remove t x => exact ⟨h.remove t x, rfl⟩
  | dequeue now => exact ⟨h.dequeue_fst now, h.dequeue_snd now⟩

omit [BEq α] in
theorem slicesOf_empty : SlicesOf (∅ : TimeQueue α) [] := fun _ => rfl

/-- Over every run from a queue that holds `p`, the keeper's queue answers as the spec and still
holds what the spec holds. -/
theorem runSlices_eq_runPending [LawfulBEq α] {q : TimeQueue α} {p : Pending α} (h : SlicesOf q p)
    (ops : List (QueueOp α)) :
    SlicesOf (runSteps stepSlices q ops).1 (runSteps stepPending p ops).1 ∧
      (runSteps stepSlices q ops).2 = (runSteps stepPending p ops).2 :=
  runSteps_sim slices_simulates ops q p (fun _ _ => trivial) h

/-- The entry a call inserts. -/
def QueueOp.entry? : QueueOp α → Option α
  | .insert _ x => some x
  | .remove _ _ => none
  | .dequeue _ => none

/-- `DeleteValidatorQueue`. -/
def QueueOp.isRemove : QueueOp α → Bool
  | .insert _ _ => false
  | .remove _ _ => true
  | .dequeue _ => false

omit [BEq α] in
/-- A dequeue splits the entries into those it returns and those it keeps. -/
theorem dequeue_perm (p : Pending α) (now : Nat) :
    ((Pending.dequeue p now).2 ++ (Pending.dequeue p now).1.map Prod.snd).Perm (p.map Prod.snd) := by
  have hsplit : ((p.filter fun e => e.1 ≤ now) ++ p.filter fun e => now < e.1).Perm p := by
    have hcongr : (p.filter fun e => now < e.1) = p.filter fun e => !decide (e.1 ≤ now) :=
      List.filter_congr fun e _ => by rw [← decide_not]; simp
    rw [hcongr]
    exact List.filter_append_perm _ p
  rw [Pending.dequeue, ← List.map_append]
  exact (((List.mergeSort_perm _ _).append_right _).trans hsplit).map Prod.snd

theorem stepPending_perm (p : Pending α) (op : QueueOp α) (hop : op.isRemove = false) :
    ((stepPending p op).2 ++ (stepPending p op).1.map Prod.snd).Perm
      (p.map Prod.snd ++ op.entry?.toList) := by
  cases op with
  | insert t x => simp [stepPending, Pending.insert, QueueOp.entry?]
  | remove t x => cases hop
  | dequeue now =>
    rw [QueueOp.entry?, Option.toList_none, List.append_nil]
    exact dequeue_perm p now

/-- A run of the spec without removals loses and duplicates nothing: what it returned and what
it still holds are what it held and what came in. -/
theorem runPending_perm (p : Pending α) (ops : List (QueueOp α))
    (hops : ∀ op ∈ ops, op.isRemove = false) :
    ((runSteps stepPending p ops).2.flatten ++ (runSteps stepPending p ops).1.map Prod.snd).Perm
      (p.map Prod.snd ++ ops.filterMap QueueOp.entry?) := by
  induction ops generalizing p with
  | nil => simp
  | cons op ops ih =>
    have hstep := stepPending_perm p op (hops op List.mem_cons_self)
    have hrest := ih (stepPending p op).1 fun o ho => hops o (List.mem_cons_of_mem op ho)
    rw [runSteps_cons, List.flatten_cons, List.append_assoc, List.filterMap_cons]
    refine (hrest.append_left _).trans ?_
    rw [← List.append_assoc]
    refine (hstep.append_right _).trans ?_
    cases op.entry? <;> simp

/-- Calls up to `now` keep every entry at or before `now`. -/
theorem runPending_le {now : Nat} (ops : List (QueueOp α)) (hops : ∀ op ∈ ops, op.time ≤ now) :
    ∀ p : Pending α, (∀ e ∈ p, e.1 ≤ now) → ∀ e ∈ (runSteps stepPending p ops).1, e.1 ≤ now := by
  induction ops with
  | nil => exact fun p hp => hp
  | cons op ops ih =>
    intro p hp
    refine ih (fun o ho => hops o (List.mem_cons_of_mem op ho)) _ fun e he => ?_
    have hop := hops op List.mem_cons_self
    cases op with
    | insert t x =>
      rcases List.mem_append.1 he with he | he
      · exact hp e he
      · rw [List.mem_singleton.1 he]
        exact hop
    | remove t x => exact hp e (List.mem_filter.1 he).1
    | dequeue now' => exact hp e (List.mem_filter.1 he).1

omit [BEq α] in
/-- A dequeue at or after every time empties the spec's queue. -/
theorem dequeue_fst_eq_nil {p : Pending α} {now : Nat} (hp : ∀ e ∈ p, e.1 ≤ now) :
    (Pending.dequeue p now).1 = [] :=
  List.filter_eq_nil_iff.2 fun e he => by simpa using hp e he

end Barkis.Staking
