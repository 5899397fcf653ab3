import Mathlib.Data.Finset.Sort
import Barkis.Lib.KVStore
import Barkis.Store.MergeIterator

/-!
# `cachekv.Store`: a write-back cache over a parent store

`store/cachekv/store.go`. The cache maps each key it has seen to a `cValue`: the value (`none`
for Go's `nil`), whether it was deleted, and whether it is dirty. `Get` on a miss reads the
parent and caches the value clean; `Set` and `Delete` cache dirty values and never touch the
parent; `Write` pushes the dirty values to the parent in key order and empties the cache.
An iterator merges the parent's iterator with one over `sortedCache`, into which `dirtyItems`
first moves the dirty keys of the domain that are still in `unsortedCache`.

The parent is any store (`KVStore.Ops`), so a cache over a cache is the same construction twice.

* `refines_cacheOps`: over a parent that refines its map, the cache refines the overlay `view`
  (cached values shadow the parent's) under `Coherent`: clean values agree with the parent, a
  dirty value is `nil` exactly when it is a delete, and `Tracked`: every dirty key is in
  `unsortedCache` or in `sortedCache` with its value.
* `write_spec`: `Write` makes the parent's map the overlay.
* `cacheKV_refines_map`: a cache over a map, and a cache over a cache over a map, behave as the
  map itself; `cacheKV_iterator_overlay`: every iteration lists the overlay on its domain.

An iterator is read to its end when it is made (`MergeIterator.toList`); the mutex and the key
and value assertions are left out.
-/

namespace Barkis.CacheKV

open KVStore

variable {σ K V : Type}

/-- `cValue`. -/
structure CValue (V : Type) where
  value : Option V
  deleted : Bool
  dirty : Bool

/-- `cachekv.Store`. -/
structure Store (σ K V : Type) where
  cache : AList (fun _ : K => CValue V)
  unsortedCache : Finset K
  sortedCache : List (K × Option V)
  parent : σ

variable [LinearOrder K]

/-- `NewStore`. -/
def newStore (parent : σ) : Store σ K V := ⟨∅, ∅, [], parent⟩

/-- `setCacheValue`: the only writer of `cache`; a dirty key is also recorded as unsorted. -/
def setCacheValue (s : Store σ K V) (key : K) (value : Option V) (deleted dirty : Bool) :
    Store σ K V :=
  { s with
    cache := s.cache.insert key ⟨value, deleted, dirty⟩
    unsortedCache := if dirty then insert key s.unsortedCache else s.unsortedCache }

/-- The merge loop of `dirtyItems`: a new item before the current one of `sortedCache` is
inserted before it, an equal one replaces it, and what is left of either is kept. -/
def mergeDirty : List (K × Option V) → List (K × Option V) → List (K × Option V)
  | [], sorted => sorted
  | u :: us, [] => u :: us
  | u :: us, e :: es =>
    match compare u.1 e.1 with
    | .lt => u :: mergeDirty us (e :: es)
    | .gt => e :: mergeDirty (u :: us) es
    | .eq => u :: mergeDirty us es
termination_by us es => us.length + es.length

/-- The unsorted keys of the domain, ascending, with their cached values: the items that
`dirtyItems` moves. -/
def unsortedItems (s : Store σ K V) (start stop : Option K) : List (K × Option V) :=
  (s.unsortedCache.filter fun key => isKeyInDomain start stop key = true).sort.map
    fun key => (key, (s.cache.lookup key).bind CValue.value)

/-- `dirtyItems`: move the unsorted keys of the domain into `sortedCache`. -/
def dirtyItems (s : Store σ K V) (start stop : Option K) : Store σ K V :=
  { s with
    unsortedCache := s.unsortedCache.filter fun key => isKeyInDomain start stop key = false
    sortedCache := mergeDirty (unsortedItems s start stop) s.sortedCache }

variable (p : Ops σ K V)

/-- `Store.Get`: a miss reads the parent and caches what it read, clean. -/
def get (s : Store σ K V) (key : K) : Store σ K V × Option V :=
  match s.cache.lookup key with
  | none =>
    let r := p.get s.parent key
    (setCacheValue { s with parent := r.1 } key r.2 false false, r.2)
  | some cacheValue => (s, cacheValue.value)

/-- `Store.Set`. -/
def set (s : Store σ K V) (key : K) (value : V) : Store σ K V :=
  setCacheValue s key (some value) false true

/-- `Store.Delete`. -/
def delete (s : Store σ K V) (key : K) : Store σ K V :=
  setCacheValue s key none true true

/-- `Store.iterator`: the parent's iterator, then one over the dirty items of the domain, merged;
what a caller reads of it. -/
def iterator (s : Store σ K V) (start stop : Option K) (ascending : Bool) :
    Store σ K V × List (K × V) :=
  let parent := p.iterator s.parent start stop ascending
  let s' := dirtyItems { s with parent := parent.1 } start stop
  (s', toList ⟨parent.2, newMemIterator start stop s'.sortedCache ascending, ascending⟩)

/-- The cache as a store over the parent's operations. -/
def cacheOps : Ops (Store σ K V) K V := ⟨get p, set, delete, iterator p⟩

/-- The dirty keys of the cache, in the cache's own order. -/
def dirtyKeys (s : Store σ K V) : List K :=
  (s.cache.entries.filter fun e => e.2.dirty).map Sigma.fst

/-- One key of the loop of `Store.Write`: delete, skip a `nil` that the parent does not have, or
set. A key is always cached when the loop reaches it. -/
def writeKey (parent : σ) (cacheValue : Option (CValue V)) (key : K) : σ :=
  match cacheValue with
  | none => parent
  | some cv =>
    if cv.deleted then p.delete parent key
    else match cv.value with
      | none => parent
      | some v => p.set parent key v

/-- `Store.Write`: write the dirty keys to the parent in ascending order, then clear the cache. -/
def write (s : Store σ K V) : Store σ K V :=
  let keys := (dirtyKeys s).mergeSort fun a b => decide (a ≤ b)
  newStore (keys.foldl (fun parent key => writeKey p parent (s.cache.lookup key) key) s.parent)

/-! ## The overlay and its invariant -/

/-- The overlay: a cached value shadows the parent's. -/
def view (viewp : σ → K → Option V) (s : Store σ K V) (k : K) : Option V :=
  match s.cache.lookup k with
  | some cv => cv.value
  | none => viewp s.parent k

/-- The bookkeeping of iteration: `sortedCache` is ascending and holds dirty keys, with their
cached value unless the key is unsorted again; a dirty key is unsorted, or sorted with its value;
an unsorted key is dirty. -/
structure Tracked (s : Store σ K V) : Prop where
  sorted : SortedBy true s.sortedCache
  sorted_dirty : ∀ k w, (k, w) ∈ s.sortedCache →
    ∃ cv, s.cache.lookup k = some cv ∧ cv.dirty = true ∧ (k ∉ s.unsortedCache → cv.value = w)
  dirty_sorted : ∀ k cv, s.cache.lookup k = some cv → cv.dirty = true →
    k ∈ s.unsortedCache ∨ (k, cv.value) ∈ s.sortedCache
  unsorted_dirty : ∀ k ∈ s.unsortedCache, ∃ cv, s.cache.lookup k = some cv ∧ cv.dirty = true

/-- A clean cached value is the parent's value, and a dirty one is `nil` exactly when it is a
delete (`Set` never caches `nil`). -/
structure Coherent (Invp : σ → Prop) (viewp : σ → K → Option V) (s : Store σ K V) : Prop where
  parent : Invp s.parent
  clean : ∀ k cv, s.cache.lookup k = some cv → cv.dirty = false → cv.value = viewp s.parent k
  dirty : ∀ k cv, s.cache.lookup k = some cv → cv.dirty = true →
    (cv.deleted = true ↔ cv.value = none)
  tracked : Tracked s

variable {p}

theorem lookup_setCacheValue (s : Store σ K V) (key : K) (value : Option V) (deleted dirty : Bool)
    (k : K) : (setCacheValue s key value deleted dirty).cache.lookup k =
      if k = key then some ⟨value, deleted, dirty⟩ else s.cache.lookup k := by
  show AList.lookup k (s.cache.insert key ⟨value, deleted, dirty⟩) = _
  split
  · rename_i hk
    subst hk
    exact AList.lookup_insert _
  · exact AList.lookup_insert_ne ‹_›

@[simp] theorem parent_setCacheValue (s : Store σ K V) (key : K) (value : Option V)
    (deleted dirty : Bool) : (setCacheValue s key value deleted dirty).parent = s.parent := rfl

theorem view_setCacheValue (viewp : σ → K → Option V) (s : Store σ K V) (key : K)
    (value : Option V) (deleted dirty : Bool) :
    view viewp (setCacheValue s key value deleted dirty) = Function.update (view viewp s) key value := by
  funext k
  by_cases hk : k = key
  · subst hk
    simp [view, lookup_setCacheValue]
  · simp only [view, lookup_setCacheValue, if_neg hk, Function.update_of_ne hk,
      parent_setCacheValue]

@[simp] theorem sortedCache_setCacheValue (s : Store σ K V) (key : K) (value : Option V)
    (deleted dirty : Bool) : (setCacheValue s key value deleted dirty).sortedCache = s.sortedCache :=
  rfl

/-- A dirty write marks its key unsorted, so the bookkeeping of every other key stands. -/
theorem tracked_setCacheValue_dirty {s : Store σ K V} (hs : Tracked s) (key : K)
    (value : Option V) (deleted : Bool) : Tracked (setCacheValue s key value deleted true) := by
  have hu : (setCacheValue s key value deleted true).unsortedCache = insert key s.unsortedCache :=
    rfl
  refine ⟨hs.sorted, fun k w hk => ?_, fun k cv hk hd => ?_, fun k hk => ?_⟩ <;>
    simp only [lookup_setCacheValue, sortedCache_setCacheValue, hu, Finset.mem_insert] at hk ⊢
  · obtain ⟨cv, hl, hd, hv⟩ := hs.sorted_dirty k w hk
    by_cases hkk : k = key
    · exact ⟨_, if_pos hkk, rfl, fun h => absurd (Or.inl hkk) h⟩
    · rw [if_neg hkk]
      exact ⟨cv, hl, hd, fun h => hv fun h' => h (Or.inr h')⟩
  · by_cases hkk : k = key
    · exact Or.inl (Or.inl hkk)
    · rw [if_neg hkk] at hk
      exact (hs.dirty_sorted k cv hk hd).imp Or.inr id
  · by_cases hkk : k = key
    · exact ⟨_, if_pos hkk, rfl⟩
    · rw [if_neg hkk]
      exact hs.unsorted_dirty k (hk.resolve_left hkk)

/-- A clean write on a miss touches a key the bookkeeping does not hold. -/
theorem tracked_setCacheValue_miss {s : Store σ K V} (hs : Tracked s) {key : K}
    (hmiss : s.cache.lookup key = none) (value : Option V) (deleted : Bool) :
    Tracked (setCacheValue s key value deleted false) := by
  have hu : (setCacheValue s key value deleted false).unsortedCache = s.unsortedCache := rfl
  -- every key the bookkeeping holds is cached, so it is not `key`
  have hne : ∀ k cv, s.cache.lookup k = some cv → k ≠ key := by
    rintro k cv hl rfl
    rw [hmiss] at hl
    cases hl
  refine ⟨hs.sorted, fun k w hk => ?_, fun k cv hk hd => ?_, fun k hk => ?_⟩ <;>
    simp only [lookup_setCacheValue, sortedCache_setCacheValue, hu] at hk ⊢
  · obtain ⟨cv, hl, hd, hv⟩ := hs.sorted_dirty k w hk
    exact ⟨cv, by rw [if_neg (hne k cv hl), hl], hd, hv⟩
  · split at hk
    · cases hk
      cases hd
    · exact hs.dirty_sorted k cv hk hd
  · obtain ⟨cv, hl, hd⟩ := hs.unsorted_dirty k hk
    exact ⟨cv, by rw [if_neg (hne k cv hl), hl], hd⟩

/-- A dirty write keeps the invariant when it is a delete exactly if it caches `nil`. -/
theorem coherent_setCacheValue {Invp : σ → Prop} {viewp : σ → K → Option V} {s : Store σ K V}
    (hs : Coherent Invp viewp s) (key : K) (value : Option V) (deleted : Bool)
    (hd : deleted = true ↔ value = none) :
    Coherent Invp viewp (setCacheValue s key value deleted true) := by
  refine ⟨hs.parent, fun k cv hk hc => ?_, fun k cv hk hc => ?_, ?_⟩
  · rw [lookup_setCacheValue] at hk
    split at hk
    · cases hk
      cases hc
    · exact hs.clean k cv hk hc
  · rw [lookup_setCacheValue] at hk
    split at hk
    · cases hk
      exact hd
    · exact hs.dirty k cv hk hc
  · exact tracked_setCacheValue_dirty hs.tracked key value deleted

omit [LinearOrder K] in
@[simp] theorem parent_newStore (q : σ) : (newStore q : Store σ K V).parent = q := rfl

theorem view_newStore (viewp : σ → K → Option V) (q : σ) :
    view viewp (newStore q : Store σ K V) = viewp q := by
  funext k
  simp [view, newStore]

theorem tracked_newStore (q : σ) : Tracked (newStore q : Store σ K V) :=
  ⟨List.Pairwise.nil, fun k w hk => by simp [newStore] at hk, fun k cv hk => by simp [newStore] at hk,
    fun k hk => by simp [newStore] at hk⟩

theorem coherent_newStore {Invp : σ → Prop} {viewp : σ → K → Option V} {q : σ} (hq : Invp q) :
    Coherent Invp viewp (newStore q : Store σ K V) :=
  ⟨hq, fun k cv hk => by simp [newStore] at hk, fun k cv hk => by simp [newStore] at hk,
    tracked_newStore q⟩

/-- The overlay only reads the parent through its map. -/
theorem view_with_parent (viewp : σ → K → Option V) (s : Store σ K V) {q : σ}
    (hq : viewp q = viewp s.parent) : view viewp { s with parent := q } = view viewp s := by
  funext k
  simp only [view, hq]

theorem Tracked.with_parent {s : Store σ K V} (hs : Tracked s) (q : σ) :
    Tracked { s with parent := q } :=
  ⟨hs.sorted, hs.sorted_dirty, hs.dirty_sorted, hs.unsorted_dirty⟩

/-! ## Iteration -/

/-- The merge of `dirtyItems` is `overlay` with the new items as the cache, none of them a
delete. -/
theorem mergeDirty_eq_overlay (us es : List (K × Option V)) :
    mergeDirty us es = overlay true es (us.map fun u => (u.1, some u.2)) := by
  fun_induction mergeDirty us es with
  | case1 es => exact (overlay_nil_right true es).symm
  | case2 u us => simp [overlay, List.filterMap_map]
  | case3 u us e es hlt ih =>
    have hgt : iterCompare true e.1 u.1 = .gt :=
      iterCompare_eq_gt.2 (by simpa [Before] using compare_lt_iff_lt.1 hlt)
    rw [ih, List.map_cons, overlay, hgt]
  | case4 u us e es hgt ih =>
    have hlt : iterCompare true e.1 u.1 = .lt :=
      iterCompare_eq_lt.2 (by simpa [Before] using compare_gt_iff_gt.1 hgt)
    rw [ih, List.map_cons, overlay, hlt]
  | case5 u us e es heq ih =>
    have heq' : iterCompare true e.1 u.1 = .eq := iterCompare_eq_eq.2 (compare_eq_iff_eq.1 heq).symm
    rw [ih, List.map_cons, overlay, heq']

theorem sortedBy_map_some {us : List (K × Option V)} (hu : SortedBy true us) :
    SortedBy true (us.map fun u => (u.1, some u.2)) :=
  List.pairwise_map.2 hu

/-- A new item replaces the sorted one of its key. -/
theorem mem_mergeDirty {us es : List (K × Option V)} (hu : SortedBy true us)
    (he : SortedBy true es) (k : K) (w : Option V) :
    (k, w) ∈ mergeDirty us es ↔ (k, w) ∈ us ∨ ((∀ w', (k, w') ∉ us) ∧ (k, w) ∈ es) := by
  rw [mergeDirty_eq_overlay, mem_overlay he (sortedBy_map_some hu)]
  simp

theorem sortedBy_mergeDirty {us es : List (K × Option V)} (hu : SortedBy true us)
    (he : SortedBy true es) : SortedBy true (mergeDirty us es) := by
  rw [mergeDirty_eq_overlay]
  exact sortedBy_overlay he (sortedBy_map_some hu)

@[simp] theorem cache_dirtyItems (s : Store σ K V) (a b : Option K) :
    (dirtyItems s a b).cache = s.cache := rfl

@[simp] theorem parent_dirtyItems (s : Store σ K V) (a b : Option K) :
    (dirtyItems s a b).parent = s.parent := rfl

theorem sortedCache_dirtyItems (s : Store σ K V) (a b : Option K) :
    (dirtyItems s a b).sortedCache = mergeDirty (unsortedItems s a b) s.sortedCache := rfl

theorem mem_unsortedCache_dirtyItems {s : Store σ K V} {a b : Option K} {k : K} :
    k ∈ (dirtyItems s a b).unsortedCache ↔ k ∈ s.unsortedCache ∧ isKeyInDomain a b k = false :=
  Finset.mem_filter

theorem sortedBy_unsortedItems (s : Store σ K V) (a b : Option K) :
    SortedBy true (unsortedItems s a b) :=
  List.pairwise_map.2 (List.sortedLT_iff_pairwise.1 (Finset.sortedLT_sort _))

theorem mem_unsortedItems {s : Store σ K V} {a b : Option K} {k : K} {w : Option V} :
    (k, w) ∈ unsortedItems s a b ↔
      k ∈ s.unsortedCache ∧ isKeyInDomain a b k = true ∧ (s.cache.lookup k).bind CValue.value = w := by
  simp only [unsortedItems, List.mem_map, Finset.mem_sort, Finset.mem_filter, Prod.mk.injEq]
  constructor
  · rintro ⟨k', ⟨hk, hd⟩, rfl, rfl⟩
    exact ⟨hk, hd, rfl⟩
  · rintro ⟨hk, hd, rfl⟩
    exact ⟨k, ⟨hk, hd⟩, rfl, rfl⟩

/-- `dirtyItems` keeps the bookkeeping: a moved key goes with its current value, and a sorted key
it does not move stays. -/
theorem Tracked.dirtyItems {s : Store σ K V} (hs : Tracked s) (a b : Option K) :
    Tracked (dirtyItems s a b) := by
  have hU := sortedBy_unsortedItems s a b
  -- an unsorted key of the domain moves with its cached value
  have hmove : ∀ k cv, s.cache.lookup k = some cv → k ∈ s.unsortedCache →
      isKeyInDomain a b k = true → (k, cv.value) ∈ unsortedItems s a b :=
    fun k cv hl hk hd => mem_unsortedItems.2 ⟨hk, hd, by rw [hl]; rfl⟩
  refine ⟨?_, fun k w hk => ?_, fun k cv hl hd => ?_, fun k hk => ?_⟩
  · exact sortedBy_mergeDirty hU hs.sorted
  · rw [sortedCache_dirtyItems, mem_mergeDirty hU hs.sorted] at hk
    rcases hk with hu | ⟨hn, he⟩
    · obtain ⟨hku, -, hw⟩ := mem_unsortedItems.1 hu
      obtain ⟨cv, hl, hdirty⟩ := hs.unsorted_dirty k hku
      rw [hl] at hw
      exact ⟨cv, hl, hdirty, fun _ => hw⟩
    · obtain ⟨cv, hl, hdirty, hv⟩ := hs.sorted_dirty k w he
      refine ⟨cv, hl, hdirty, fun hk' => hv fun hku => ?_⟩
      -- an unsorted key of the domain would have been moved, one outside it stays unsorted
      cases hd : isKeyInDomain a b k
      · exact hk' (mem_unsortedCache_dirtyItems.2 ⟨hku, hd⟩)
      · exact hn cv.value (hmove k cv hl hku hd)
  · rw [sortedCache_dirtyItems, mem_mergeDirty hU hs.sorted, mem_unsortedCache_dirtyItems]
    by_cases hm : k ∈ s.unsortedCache ∧ isKeyInDomain a b k = true
    · exact Or.inr (Or.inl (hmove k cv hl hm.1 hm.2))
    · rcases hs.dirty_sorted k cv hl hd with hku | hks
      · exact Or.inl ⟨hku, by simpa [hku] using hm⟩
      · have hn : ∀ w', (k, w') ∉ unsortedItems s a b := fun w' hw' =>
          hm ⟨(mem_unsortedItems.1 hw').1, (mem_unsortedItems.1 hw').2.1⟩
        exact Or.inr (Or.inr ⟨hn, hks⟩)
  · exact hs.unsorted_dirty k (mem_unsortedCache_dirtyItems.1 hk).1

/-- The cache's dirty values: what its iterator shadows the parent's with. -/
def dirtyView (s : Store σ K V) (k : K) : Option (Option V) :=
  match s.cache.lookup k with
  | some cv => if cv.dirty then some cv.value else none
  | none => none

theorem dirtyView_eq_some {s : Store σ K V} {k : K} {w : Option V} :
    dirtyView s k = some w ↔ ∃ cv, s.cache.lookup k = some cv ∧ cv.dirty = true ∧ cv.value = w := by
  unfold dirtyView
  cases s.cache.lookup k with
  | none => simp
  | some cv => cases hd : cv.dirty <;> simp [hd]

/-- After `dirtyItems`, `sortedCache` holds on the domain exactly the dirty values. -/
theorem mem_sortedCache_dirtyItems {s : Store σ K V} (hs : Tracked s) {a b : Option K} {k : K}
    (hk : isKeyInDomain a b k = true) (w : Option V) :
    (k, w) ∈ (dirtyItems s a b).sortedCache ↔ dirtyView s k = some w := by
  have ht := hs.dirtyItems a b
  have hnu : k ∉ (dirtyItems s a b).unsortedCache := by
    simp [mem_unsortedCache_dirtyItems, hk]
  rw [dirtyView_eq_some]
  constructor
  · intro h
    obtain ⟨cv, hl, hd, hv⟩ := ht.sorted_dirty k w h
    exact ⟨cv, hl, hd, hv hnu⟩
  · rintro ⟨cv, hl, hd, rfl⟩
    exact (ht.dirty_sorted k cv hl hd).resolve_left hnu

/-- The parent shadowed by the dirty values is the overlay: a clean value is the parent's. -/
theorem shadow_dirtyView {Invp : σ → Prop} {viewp : σ → K → Option V} {s : Store σ K V}
    (hs : Coherent Invp viewp s) : shadow (dirtyView s) (viewp s.parent) = view viewp s := by
  funext k
  unfold shadow dirtyView view
  cases hl : s.cache.lookup k with
  | none => rfl
  | some cv =>
    cases hd : cv.dirty
    · simp [hd, hs.clean k cv hl hd]
    · simp [hd]

section Refines

variable {Invp : σ → Prop} {viewp : σ → K → Option V}

/-- `Get` reads the overlay, leaves it as it was, and keeps the invariant. -/
theorem get_spec (hp : Refines p Invp viewp) {s : Store σ K V} (hs : Coherent Invp viewp s)
    (key : K) : Coherent Invp viewp (get p s key).1 ∧ (get p s key).2 = view viewp s key ∧
      view viewp (get p s key).1 = view viewp s := by
  unfold get
  cases hl : s.cache.lookup key with
  | some cv => exact ⟨hs, by simp [view, hl], rfl⟩
  | none =>
    -- a miss reads the parent's map, which stays where it was, and caches the value clean
    have hpv := hp.get_view s.parent key hs.parent
    have hval := hp.get_val s.parent key hs.parent
    have hmiss : view viewp s key = viewp s.parent key := by simp [view, hl]
    refine ⟨⟨hp.get_inv _ _ hs.parent, fun k cv hk hc => ?_, fun k cv hk hc => ?_,
      tracked_setCacheValue_miss (hs.tracked.with_parent (p.get s.parent key).1) hl
        (p.get s.parent key).2 false⟩, ?_, ?_⟩
    · rw [lookup_setCacheValue] at hk
      split at hk
      · rename_i hkk
        cases hk
        subst hkk
        simp only [parent_setCacheValue, hpv, hval]
      · rw [parent_setCacheValue, hpv]
        exact hs.clean k cv hk hc
    · rw [lookup_setCacheValue] at hk
      split at hk
      · cases hk
        cases hc
      · exact hs.dirty k cv hk hc
    · exact hval.trans hmiss.symm
    · dsimp only
      rw [view_setCacheValue, view_with_parent viewp s hpv, hval, ← hmiss]
      exact Function.update_eq_self key _

/-- An iteration lists the overlay on its domain, leaves it as it was, and keeps the invariant. -/
theorem iterator_spec (hp : Refines p Invp viewp) {s : Store σ K V} (hs : Coherent Invp viewp s)
    (a b : Option K) (asc : Bool) :
    Coherent Invp viewp (iterator p s a b asc).1 ∧ view viewp (iterator p s a b asc).1 = view viewp s ∧
      Lists (view viewp s) a b asc (iterator p s a b asc).2 := by
  -- the parent's iterator keeps the parent's map, so the cache stays coherent over it
  have hqv := hp.iter_view s.parent a b asc hs.parent
  have hs1 : Coherent Invp viewp { s with parent := (p.iterator s.parent a b asc).1 } :=
    ⟨hp.iter_inv s.parent a b asc hs.parent,
      fun k cv hl hd => (hs.clean k cv hl hd).trans (congrFun hqv k).symm, hs.dirty,
      hs.tracked.with_parent _⟩
  refine ⟨⟨hs1.parent, hs1.clean, hs1.dirty, hs1.tracked.dirtyItems a b⟩,
    view_with_parent viewp s hqv, ?_⟩
  -- the cache's iterator lists the dirty values, and the merge shadows the parent's listing
  have hC := lists_newMemIterator asc (hs1.tracked.dirtyItems a b).sorted
    fun k w hk => mem_sortedCache_dirtyItems hs1.tracked hk w
  have hL := lists_overlay (hp.iter_items s.parent a b asc hs.parent) hC
  rw [show dirtyView { s with parent := (p.iterator s.parent a b asc).1 } = dirtyView s from rfl,
    shadow_dirtyView hs] at hL
  simpa only [iterator, toList_eq_overlay] using hL

/-- Over a parent that refines its map, the cache refines the overlay. -/
theorem refines_cacheOps (hp : Refines p Invp viewp) :
    Refines (cacheOps p) (Coherent Invp viewp) (view viewp) where
  get_inv s k hs := (get_spec hp hs k).1
  get_val s k hs := (get_spec hp hs k).2.1
  get_view s k hs := (get_spec hp hs k).2.2
  set_inv s k v hs := coherent_setCacheValue hs k (some v) false (by simp)
  set_view s k v _ := view_setCacheValue viewp s k (some v) false true
  delete_inv s k hs := coherent_setCacheValue hs k none true (by simp)
  delete_view s k _ := view_setCacheValue viewp s k none true true
  iter_inv s a b asc hs := (iterator_spec hp hs a b asc).1
  iter_view s a b asc hs := (iterator_spec hp hs a b asc).2.1
  iter_items s a b asc hs := (iterator_spec hp hs a b asc).2.2

theorem mem_dirtyKeys {s : Store σ K V} {k : K} :
    k ∈ dirtyKeys s ↔ ∃ cv, s.cache.lookup k = some cv ∧ cv.dirty = true := by
  simp only [dirtyKeys, List.mem_map, List.mem_filter]
  constructor
  · rintro ⟨⟨k', cv⟩, ⟨he, hd⟩, rfl⟩
    exact ⟨cv, AList.mem_lookup_iff.2 he, hd⟩
  · rintro ⟨cv, hl, hd⟩
    exact ⟨⟨k, cv⟩, ⟨AList.mem_lookup_iff.1 hl, hd⟩, rfl⟩

omit [LinearOrder K] in
theorem nodup_dirtyKeys (s : Store σ K V) : (dirtyKeys s).Nodup :=
  s.cache.keys_nodup.sublist (List.filter_sublist.map Sigma.fst)

/-- `Write` makes the parent's map the overlay, keeping the parent's invariant. -/
theorem write_spec (hp : Refines p Invp viewp) {s : Store σ K V} (hs : Coherent Invp viewp s) :
    Invp (write p s).parent ∧ viewp (write p s).parent = view viewp s := by
  have hperm := List.mergeSort_perm (dirtyKeys s) fun a b => decide (a ≤ b)
  have hnd := hperm.nodup_iff.2 (nodup_dirtyKeys s)
  -- each dirty key sets the parent's map at that key to the cached value
  have hstep : ∀ q k, k ∈ (dirtyKeys s).mergeSort (fun a b => decide (a ≤ b)) → Invp q →
      Invp (writeKey p q (s.cache.lookup k) k) ∧
        viewp (writeKey p q (s.cache.lookup k) k) = Function.update (viewp q) k (view viewp s k) := by
    intro q k hk hq
    obtain ⟨cv, hl, hd⟩ := mem_dirtyKeys.1 (hperm.mem_iff.1 hk)
    have hdel := hs.dirty k cv hl hd
    simp only [view, hl, writeKey]
    by_cases hdl : cv.deleted = true
    · rw [if_pos hdl, hdel.1 hdl]
      exact ⟨hp.delete_inv q k hq, hp.delete_view q k hq⟩
    · rw [if_neg hdl]
      cases hv : cv.value with
      | none => exact absurd (hdel.2 hv) hdl
      | some v => exact ⟨hp.set_inv q k v hq, hp.set_view q k v hq⟩
  obtain ⟨hinv, hview⟩ := view_foldl hnd hstep s.parent hs.parent
  refine ⟨hinv, funext fun x => ?_⟩
  simp only [write, parent_newStore, hview x]
  split_ifs with hx
  · rfl
  · -- a key that is not dirty is a miss, or cached clean with the parent's value
    unfold view
    cases hl : s.cache.lookup x with
    | none => rfl
    | some cv =>
      have hd : cv.dirty = false := by
        cases hc : cv.dirty
        · rfl
        · exact absurd (hperm.mem_iff.2 (mem_dirtyKeys.2 ⟨cv, hl, hc⟩)) hx
      exact (hs.clean x cv hl hd).symm

end Refines

/-- Over a map, `Get` and an iteration leave the map where it was: only the cache changes. -/
theorem parent_run_amapOps (ops : List (Op K V)) :
    ∀ s : Store (AList fun _ : K => V) K V, (run (cacheOps amapOps) s ops).1.parent = s.parent := by
  induction ops with
  | nil => exact fun s => rfl
  | cons op ops ih =>
    intro s
    cases op with
    | get k =>
      refine (ih _).trans ?_
      show (get amapOps s k).1.parent = s.parent
      unfold get
      cases s.cache.lookup k <;> rfl
    | set k v => exact ih _
    | delete k => exact ih _
    | iterate a b asc => exact ih _

/-- A cache over a map `P` answers every call as `P` updated by the calls before it would,
without touching `P`; `Write` then leaves `P` updated by all the calls, and the cache empty. A
cache over a cache over `P`, written inner first and outer second, leaves the same map. -/
theorem cacheKV_refines_map (P : AList fun _ : K => V) (ops : List (Op K V)) :
    Answers (fun k => P.lookup k) ops (run (cacheOps amapOps) (newStore P) ops).2 ∧
      (run (cacheOps amapOps) (newStore P) ops).1.parent = P ∧
      (∀ k, (write amapOps (run (cacheOps amapOps) (newStore P) ops).1).parent.lookup k =
        (run amapOps P ops).1.lookup k) ∧
      (write amapOps (run (cacheOps amapOps) (newStore P) ops).1).cache = ∅ ∧
      (∀ k, (write amapOps (write (cacheOps amapOps)
        (run (cacheOps (cacheOps amapOps)) (newStore (newStore P)) ops).1).parent).parent.lookup k =
        (run amapOps P ops).1.lookup k) := by
  have h0 : Refines (amapOps : Ops (AList fun _ : K => V) K V) _ _ := amapOps_refines
  have h1 := refines_cacheOps h0
  obtain ⟨hi, hv, hr⟩ := run_refines h1 ops (newStore P) (coherent_newStore trivial)
  obtain ⟨hi2, hv2, -⟩ := run_refines (refines_cacheOps h1) ops (newStore (newStore P))
    (coherent_newStore (coherent_newStore trivial))
  obtain ⟨-, hm, -⟩ := run_refines h0 ops P trivial
  rw [view_newStore] at hv hr
  rw [view_newStore, view_newStore] at hv2
  -- the inner write leaves its overlay in the outer cache, the outer one in `P`
  obtain ⟨hwi, hwv⟩ := write_spec h1 hi2
  refine ⟨hr, parent_run_amapOps ops _, fun k => ?_, rfl, fun k => ?_⟩
  · rw [congrFun hm k, ← hv]
    exact congrFun (write_spec h0 hi).2 k
  · rw [congrFun hm k, ← hv2, ← hwv]
    exact congrFun (write_spec h0 hwi).2 k

/-- Whatever calls come between them, every iteration of a cache over a map `P`, and of a cache
over a cache over `P`, lists the overlay on its domain once each in iteration order: the map's
own listing. -/
theorem cacheKV_iterator_overlay (P : AList fun _ : K => V) (ops : List (Op K V)) :
    Answers (fun k => P.lookup k) ops (run (cacheOps amapOps) (newStore P) ops).2 ∧
      Answers (fun k => P.lookup k) ops
        (run (cacheOps (cacheOps amapOps)) (newStore (newStore P)) ops).2 ∧
      (run (cacheOps amapOps) (newStore P) ops).2 = (run amapOps P ops).2 := by
  have h0 : Refines (amapOps : Ops (AList fun _ : K => V) K V) _ _ := amapOps_refines
  have h1 := refines_cacheOps h0
  obtain ⟨-, -, hr⟩ := run_refines h1 ops (newStore P) (coherent_newStore trivial)
  obtain ⟨-, -, hr2⟩ := run_refines (refines_cacheOps h1) ops (newStore (newStore P))
    (coherent_newStore (coherent_newStore trivial))
  obtain ⟨-, -, hm⟩ := run_refines h0 ops P trivial
  rw [view_newStore] at hr
  rw [view_newStore, view_newStore] at hr2
  exact ⟨hr, hr2, hr.unique hm⟩

end Barkis.CacheKV
