import Mathlib

/-!
# Key-value stores that refine a map

A store is a state `σ` with `get`, `set`, `delete` and an iterator over a key domain; `get` and
the iterator return a new state with their answer, as a cache fills itself on a read. A store
*refines* a map view `view : σ → K → Option V` under an invariant `Inv` (`Refines`) when every
operation keeps `Inv`, reads leave the view as it was, `get` reads it, the iterator lists it on
its domain (`Lists`), and `set` and `delete` update it at their key.

* `run` executes a list of calls and collects the answers; `run_refines` says that on a
  refining store they are the answers of the map itself (`Answers`), and the view ends as the map
  does (`apply`).
* `Lists.unique`: a listing of a map on a domain is unique, so `Answers` fixes every answer.
* `amapOps`: a finite map (`AList`) as a store, iterating its keys in order.
* `view_foldl`: the rule for a loop that writes a list of distinct keys one at a time.
-/

namespace Barkis.KVStore

variable {σ K V : Type*}

/-- The operations of a key-value store over states `σ`; `iterator s start stop ascending` lists
the entries with `start ≤ key < stop` (a missing bound is no bound), ascending or descending. -/
structure Ops (σ K V : Type*) where
  get : σ → K → σ × Option V
  set : σ → K → V → σ
  delete : σ → K → σ
  iterator : σ → Option K → Option K → Bool → σ × List (K × V)

/-- One call on a store. -/
inductive Op (K V : Type*) where
  | get (k : K)
  | set (k : K) (v : V)
  | delete (k : K)
  | iterate (start stop : Option K) (ascending : Bool)

/-- The answer of a read. -/
inductive Out (K V : Type*) where
  | value (v : Option V)
  | items (l : List (K × V))

/-- Run the calls in order, collecting the answers of the reads. -/
def run (st : Ops σ K V) : σ → List (Op K V) → σ × List (Out K V)
  | s, [] => (s, [])
  | s, .get k :: ops =>
    let r := run st (st.get s k).1 ops
    (r.1, .value (st.get s k).2 :: r.2)
  | s, .set k v :: ops => run st (st.set s k v) ops
  | s, .delete k :: ops => run st (st.delete s k) ops
  | s, .iterate a b asc :: ops =>
    let r := run st (st.iterator s a b asc).1 ops
    (r.1, .items (st.iterator s a b asc).2 :: r.2)

variable [LinearOrder K]

/-- `IsKeyInDomain`: `start ≤ key < stop`, a missing bound being no bound. -/
def isKeyInDomain (start stop : Option K) (key : K) : Bool :=
  (match start with | none => true | some a => decide (a ≤ key)) &&
    (match stop with | none => true | some b => decide (key < b))

theorem le_of_isKeyInDomain {start stop : Option K} {key : K}
    (h : isKeyInDomain start stop key = true) : ∀ a ∈ start, a ≤ key := by
  rintro a rfl
  simp only [isKeyInDomain, Bool.and_eq_true, decide_eq_true_eq] at h
  exact h.1

/-- Past the start, a key out of the domain is past its end, and so is every later key. -/
theorem isKeyInDomain_eq_false_of_le {start stop : Option K} {key key' : K}
    (hlow : ∀ a ∈ start, a ≤ key) (h : isKeyInDomain start stop key = false) (hle : key ≤ key') :
    isKeyInDomain start stop key' = false := by
  cases stop with
  | none => cases start <;> simp_all [isKeyInDomain]
  | some b =>
    -- out of the domain past the start is at or past `stop`
    have hb : b ≤ key := by cases start <;> simp_all [isKeyInDomain]
    simp [isKeyInDomain, not_lt.2 (hb.trans hle)]

/-- `a` comes before `b` in the iteration order. -/
def Before (ascending : Bool) (a b : K) : Prop := if ascending then a < b else b < a

instance (ascending : Bool) (a b : K) : Decidable (Before ascending a b) := by
  unfold Before; infer_instance

/-- `l` lists the entries of the map `m` whose keys lie in the domain, once each, in iteration
order. -/
structure Lists (m : K → Option V) (start stop : Option K) (ascending : Bool)
    (l : List (K × V)) : Prop where
  sorted : l.Pairwise fun a b => Before ascending a.1 b.1
  mem : ∀ k v, (k, v) ∈ l ↔ isKeyInDomain start stop k = true ∧ m k = some v

/-- The map after the calls. -/
def apply (m : K → Option V) : List (Op K V) → K → Option V
  | [] => m
  | .get _ :: ops => apply m ops
  | .set k v :: ops => apply (Function.update m k (some v)) ops
  | .delete k :: ops => apply (Function.update m k none) ops
  | .iterate _ _ _ :: ops => apply m ops

/-- The answers of a map to calls: a `get` reads its value, an iteration lists it. -/
inductive Answers : (K → Option V) → List (Op K V) → List (Out K V) → Prop
  | nil (m) : Answers m [] []
  | get (m k ops outs) : Answers m ops outs → Answers m (.get k :: ops) (.value (m k) :: outs)
  | set (m k v ops outs) : Answers (Function.update m k (some v)) ops outs →
      Answers m (.set k v :: ops) outs
  | delete (m k ops outs) : Answers (Function.update m k none) ops outs →
      Answers m (.delete k :: ops) outs
  | iterate (m a b asc ops l outs) : Lists m a b asc l → Answers m ops outs →
      Answers m (.iterate a b asc :: ops) (.items l :: outs)

/-- `st` refines the map `view` on the states that satisfy `Inv`. -/
structure Refines (st : Ops σ K V) (Inv : σ → Prop) (view : σ → K → Option V) : Prop where
  get_inv : ∀ s k, Inv s → Inv (st.get s k).1
  get_val : ∀ s k, Inv s → (st.get s k).2 = view s k
  get_view : ∀ s k, Inv s → view (st.get s k).1 = view s
  set_inv : ∀ s k v, Inv s → Inv (st.set s k v)
  set_view : ∀ s k v, Inv s → view (st.set s k v) = Function.update (view s) k (some v)
  delete_inv : ∀ s k, Inv s → Inv (st.delete s k)
  delete_view : ∀ s k, Inv s → view (st.delete s k) = Function.update (view s) k none
  iter_inv : ∀ s a b asc, Inv s → Inv (st.iterator s a b asc).1
  iter_view : ∀ s a b asc, Inv s → view (st.iterator s a b asc).1 = view s
  iter_items : ∀ s a b asc, Inv s → Lists (view s) a b asc (st.iterator s a b asc).2

/-- On a refining store a run keeps the invariant, answers as the map does, and leaves the view
where the map ends. -/
theorem run_refines {st : Ops σ K V} {Inv : σ → Prop} {view : σ → K → Option V}
    (h : Refines st Inv view) (ops : List (Op K V)) :
    ∀ s, Inv s → Inv (run st s ops).1 ∧ view (run st s ops).1 = apply (view s) ops ∧
      Answers (view s) ops (run st s ops).2 := by
  induction ops with
  | nil => exact fun s hs => ⟨hs, rfl, .nil _⟩
  | cons op ops ih =>
    intro s hs
    cases op with
    | get k =>
      obtain ⟨h1, h2, h3⟩ := ih _ (h.get_inv s k hs)
      rw [h.get_view s k hs] at h2 h3
      refine ⟨h1, h2, ?_⟩
      rw [run, h.get_val s k hs]
      exact .get _ _ _ _ h3
    | set k v =>
      obtain ⟨h1, h2, h3⟩ := ih _ (h.set_inv s k v hs)
      rw [h.set_view s k v hs] at h2 h3
      exact ⟨h1, h2, .set _ _ _ _ _ h3⟩
    | delete k =>
      obtain ⟨h1, h2, h3⟩ := ih _ (h.delete_inv s k hs)
      rw [h.delete_view s k hs] at h2 h3
      exact ⟨h1, h2, .delete _ _ _ _ h3⟩
    | iterate a b asc =>
      obtain ⟨h1, h2, h3⟩ := ih _ (h.iter_inv s a b asc hs)
      rw [h.iter_view s a b asc hs] at h2 h3
      exact ⟨h1, h2, .iterate _ _ _ _ _ _ _ (h.iter_items s a b asc hs) h3⟩

/-! ## Listings -/

theorem before_irrefl (asc : Bool) (a : K) : ¬Before asc a a := by
  cases asc <;> simp [Before]

theorem before_trans {asc : Bool} {a b c : K} (h1 : Before asc a b) (h2 : Before asc b c) :
    Before asc a c := by
  cases asc
  · exact lt_trans h2 h1
  · exact lt_trans h1 h2

theorem before_asymm {asc : Bool} {a b : K} (h : Before asc a b) : ¬Before asc b a := by
  cases asc
  · exact lt_asymm h
  · exact lt_asymm h

/-- Two lists sorted by a strict order with the same members are equal. -/
theorem eq_of_pairwise_of_mem_iff {l₁ l₂ : List (K × V)} {asc : Bool}
    (h₁ : l₁.Pairwise fun a b => Before asc a.1 b.1) (h₂ : l₂.Pairwise fun a b => Before asc a.1 b.1)
    (hm : ∀ x, x ∈ l₁ ↔ x ∈ l₂) : l₁ = l₂ := by
  induction l₁ generalizing l₂ with
  | nil =>
    cases l₂ with
    | nil => rfl
    | cons y l₂ => exact absurd ((hm y).2 List.mem_cons_self) List.not_mem_nil
  | cons x l₁ ih =>
    cases l₂ with
    | nil => exact absurd ((hm x).1 List.mem_cons_self) List.not_mem_nil
    | cons y l₂ =>
      obtain ⟨hx, h₁'⟩ := List.pairwise_cons.1 h₁
      obtain ⟨hy, h₂'⟩ := List.pairwise_cons.1 h₂
      -- the heads are the least members of both lists, so they agree
      have hxy : x = y := by
        rcases List.mem_cons.1 ((hm x).1 List.mem_cons_self) with h | h
        · exact h
        rcases List.mem_cons.1 ((hm y).2 List.mem_cons_self) with h' | h'
        · exact h'.symm
        exact absurd (hx y h') (before_asymm (hy x h))
      subst hxy
      refine congrArg (x :: ·) (ih h₁' h₂' fun z => ?_)
      constructor
      · intro hz
        rcases List.mem_cons.1 ((hm z).1 (List.mem_cons_of_mem x hz)) with rfl | h
        · exact absurd (hx z hz) (before_irrefl asc z.1)
        · exact h
      · intro hz
        rcases List.mem_cons.1 ((hm z).2 (List.mem_cons_of_mem x hz)) with rfl | h
        · exact absurd (hy z hz) (before_irrefl asc z.1)
        · exact h

/-- A map has one listing on a domain. -/
theorem Lists.unique {m : K → Option V} {a b : Option K} {asc : Bool} {l₁ l₂ : List (K × V)}
    (h₁ : Lists m a b asc l₁) (h₂ : Lists m a b asc l₂) : l₁ = l₂ :=
  eq_of_pairwise_of_mem_iff h₁.sorted h₂.sorted fun ⟨k, v⟩ => (h₁.mem k v).trans (h₂.mem k v).symm

/-- A map answers calls one way only. -/
theorem Answers.unique {m : K → Option V} {ops : List (Op K V)} {outs₁ outs₂ : List (Out K V)}
    (h₁ : Answers m ops outs₁) (h₂ : Answers m ops outs₂) : outs₁ = outs₂ := by
  induction h₁ generalizing outs₂ with
  | nil => cases h₂; rfl
  | get m k ops outs _ ih =>
    cases h₂ with
    | get _ _ _ outs' h => rw [ih h]
  | set m k v ops outs _ ih =>
    cases h₂ with
    | set _ _ _ _ outs' h => exact ih h
  | delete m k ops outs _ ih =>
    cases h₂ with
    | delete _ _ _ outs' h => exact ih h
  | iterate m a b asc ops l outs hl _ ih =>
    cases h₂ with
    | iterate _ _ _ _ _ l' outs' hl' h => rw [hl.unique hl', ih h]

/-! ## A finite map as a store -/

/-- A finite map as a store; its iterator sorts the keys in the domain. -/
def amapOps : Ops (AList fun _ : K => V) K V where
  get m k := (m, m.lookup k)
  set m k v := m.insert k v
  delete m k := m.erase k
  iterator m a b asc :=
    let keys := (m.keys.filter (isKeyInDomain a b)).mergeSort fun x y => decide (x ≤ y)
    (m, (if asc then keys else keys.reverse).filterMap fun k => (m.lookup k).map (k, ·))

/-- Distinct keys sorted by `≤` are sorted by `<`. -/
theorem pairwise_lt_mergeSort {l : List K} (hl : l.Nodup) :
    (l.mergeSort fun x y => decide (x ≤ y)).Pairwise (· < ·) := by
  have hs : (l.mergeSort fun x y => decide (x ≤ y)).Pairwise fun x y => decide (x ≤ y) :=
    List.pairwise_mergeSort
      (fun a b c hab hbc => by simp only [decide_eq_true_eq] at *; exact le_trans hab hbc)
      (fun a b => by simpa using le_total a b) l
  have hnd := (List.mergeSort_perm l fun x y => decide (x ≤ y)).nodup_iff.2 hl
  exact (hs.and hnd).imp fun ⟨h, hne⟩ => lt_of_le_of_ne (by simpa using h) hne

theorem amapOps_iterator_lists (m : AList fun _ : K => V) (a b : Option K) (asc : Bool) :
    Lists (fun k => m.lookup k) a b asc (amapOps.iterator m a b asc).2 := by
  set keys := (m.keys.filter (isKeyInDomain a b)).mergeSort fun x y => decide (x ≤ y)
  have hperm : keys.Perm (m.keys.filter (isKeyInDomain a b)) := List.mergeSort_perm _ _
  have hlt : keys.Pairwise (· < ·) := pairwise_lt_mergeSort (m.keys_nodup.filter _)
  -- every listed key is in the map, so `filterMap` keeps the key order
  have hord : (if asc then keys else keys.reverse).Pairwise (Before asc) := by
    cases asc
    · exact List.pairwise_reverse.2 hlt
    · exact hlt
  refine ⟨?_, fun k v => ?_⟩
  · refine List.Pairwise.filterMap _ (fun x y hxy kv hkv kv' hkv' => ?_) hord
    obtain ⟨_, -, rfl⟩ := Option.map_eq_some_iff.1 hkv
    obtain ⟨_, -, rfl⟩ := Option.map_eq_some_iff.1 hkv'
    exact hxy
  · have hmem : k ∈ (if asc then keys else keys.reverse) ↔ k ∈ m.keys.filter (isKeyInDomain a b) := by
      cases asc
      · exact List.mem_reverse.trans hperm.mem_iff
      · exact hperm.mem_iff
    simp only [amapOps, List.mem_filterMap, Option.map_eq_some_iff, Prod.mk.injEq]
    constructor
    · rintro ⟨k', hk', v', hv', rfl, rfl⟩
      obtain ⟨-, hd⟩ := List.mem_filter.1 (hmem.1 hk')
      exact ⟨hd, hv'⟩
    · rintro ⟨hd, hv⟩
      refine ⟨k, hmem.2 (List.mem_filter.2 ⟨?_, hd⟩), v, hv, rfl, rfl⟩
      exact AList.mem_keys.1 (AList.lookup_isSome.1 (by simp [hv]))

theorem amapOps_refines :
    Refines (amapOps : Ops (AList fun _ : K => V) K V) (fun _ => True) fun m k => m.lookup k where
  get_inv _ _ _ := trivial
  get_val _ _ _ := rfl
  get_view _ _ _ := rfl
  set_inv _ _ _ _ := trivial
  set_view m k v _ := by
    funext x
    by_cases hx : x = k
    · subst hx
      simp [amapOps]
    · simp [amapOps, AList.lookup_insert_ne hx, hx]
  delete_inv _ _ _ := trivial
  delete_view m k _ := by
    funext x
    by_cases hx : x = k
    · subst hx
      simp [amapOps]
    · simp [amapOps, AList.lookup_erase_ne hx, hx]
  iter_inv _ _ _ _ _ := trivial
  iter_view _ _ _ _ _ := rfl
  iter_items m a b asc _ := amapOps_iterator_lists m a b asc

/-- The map a finite-map store holds. -/
def amapView (m : AList fun _ : K => V) (k : K) : Option V := m.lookup k

theorem amapOps_refines_amapView :
    Refines (amapOps : Ops (AList fun _ : K => V) K V) (fun _ => True) amapView :=
  amapOps_refines

/-! ## Write-back loops -/

/-- Writing distinct keys one at a time, each step setting the view at its key to `g k`, leaves
`g` on those keys and the old view elsewhere. -/
theorem view_foldl {Inv : σ → Prop} {view : σ → K → Option V} {f : σ → K → σ}
    {g : K → Option V} {ks : List K} (hnd : ks.Nodup)
    (hf : ∀ s k, k ∈ ks → Inv s →
      Inv (f s k) ∧ view (f s k) = Function.update (view s) k (g k)) :
    ∀ s, Inv s → Inv (ks.foldl f s) ∧
      ∀ x, view (ks.foldl f s) x = if x ∈ ks then g x else view s x := by
  induction ks with
  | nil => exact fun s hs => ⟨hs, fun x => rfl⟩
  | cons k ks ih =>
    intro s hs
    obtain ⟨hk, hnd'⟩ := List.nodup_cons.1 hnd
    obtain ⟨hi, hv⟩ := hf s k List.mem_cons_self hs
    obtain ⟨hi', hv'⟩ := ih hnd' (fun s k' hk' => hf s k' (List.mem_cons_of_mem k hk')) _ hi
    refine ⟨hi', fun x => ?_⟩
    rw [List.foldl_cons, hv', hv]
    by_cases hx : x = k
    · subst hx
      simp [hk]
    · by_cases hxs : x ∈ ks <;> simp [hx, hxs]

end Barkis.KVStore
