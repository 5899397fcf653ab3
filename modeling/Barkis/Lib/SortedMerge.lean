import Mathlib

/-!
# Merging sorted keyed lists

A keyed list is `Sorted` when its keys strictly increase. `mergeAdd` walks two such lists with
two cursors: the smaller key is emitted and its cursor advances, two equal keys are combined by a
partial `add` and both cursors advance, an element that `isZero` is dropped, and once one side
runs out the rest of the other is emitted without its zeros. `lookup` reads the value at a key
(zero when the key is absent); `bsearch` reads it by bisection.

For sorted arguments the merge is sorted and zero-free (`sorted_mergeAdd`, `nonZero_mergeAdd`),
adds lookups pointwise (`lookup_mergeAdd`) and fails exactly when `add` fails on a pair of equal
keys (`mergeAdd_eq_none_iff`); bisection reads what `lookup` reads (`bsearch_eq_lookup`); and two
sorted zero-free lists with the same lookups are equal (`eq_of_lookup_eq`). All proofs of the
merge go through one induction principle, `mergeAdd_induction`, which follows its two cursors.
-/

namespace Barkis.SortedMerge

variable {α K V : Type*} [LinearOrder K]

section Merge

variable (key : α → K) (isZero : α → Bool) (add : α → α → Option α)

/-- Strictly increasing keys. -/
def Sorted (l : List α) : Prop := l.Pairwise (fun a b => key a < key b)

/-- The elements that are not zero, in order. -/
def removeZero (l : List α) : List α := l.filter (fun a => !isZero a)

/-- Emit `a` in front of `l` unless it is zero. -/
def consNonZero (a : α) (l : List α) : List α := if isZero a then l else a :: l

/-- The merge of `a :: as` with a right list, by recursion on the right list; `rec` merges `as`
with any right list. -/
def mergeAddCons (a : α) (as : List α) (rec : List α → Option (List α)) :
    List α → Option (List α)
  | [] => some (removeZero isZero (a :: as))
  | b :: bs =>
    if key a < key b then consNonZero isZero a <$> rec (b :: bs)
    else if key a = key b then add a b >>= fun r => consNonZero isZero r <$> rec bs
    else consNonZero isZero b <$> mergeAddCons a as rec bs

/-- The two-cursor merge; `none` when some `add` fails. -/
def mergeAdd : List α → List α → Option (List α)
  | [], bs => some (removeZero isZero bs)
  | a :: as, bs => mergeAddCons key isZero add a as (mergeAdd as) bs

@[simp] theorem mergeAdd_nil_left (bs : List α) :
    mergeAdd key isZero add [] bs = some (removeZero isZero bs) := rfl

@[simp] theorem mergeAdd_cons_nil (a : α) (as : List α) :
    mergeAdd key isZero add (a :: as) [] = some (removeZero isZero (a :: as)) := rfl

theorem mergeAdd_cons_cons (a b : α) (as bs : List α) :
    mergeAdd key isZero add (a :: as) (b :: bs) =
      if key a < key b then consNonZero isZero a <$> mergeAdd key isZero add as (b :: bs)
      else if key a = key b then
        add a b >>= fun r => consNonZero isZero r <$> mergeAdd key isZero add as bs
      else consNonZero isZero b <$> mergeAdd key isZero add (a :: as) bs := rfl

/-- Induction along the two cursors of `mergeAdd`. -/
theorem mergeAdd_induction {P : List α → List α → Prop} (nil : ∀ bs, P [] bs)
    (consNil : ∀ a as, P (a :: as) [])
    (step : ∀ a b as bs, P as (b :: bs) → P as bs → P (a :: as) bs → P (a :: as) (b :: bs)) :
    ∀ as bs, P as bs := by
  intro as
  induction as with
  | nil => exact nil
  | cons a as ih =>
    intro bs
    induction bs with
    | nil => exact consNil a as
    | cons b bs ihb => exact step a b as bs (ih _) (ih _) ihb

end Merge

section Lookup

variable (key : α → K) (val : α → V) [Zero V]

/-- The value at key `k`, zero when `k` is absent. -/
def lookup (l : List α) (k : K) : V := ((l.find? fun a => key a = k).map val).getD 0

@[simp] theorem lookup_nil (k : K) : lookup key val [] k = 0 := rfl

theorem lookup_cons (a : α) (l : List α) (k : K) :
    lookup key val (a :: l) k = if key a = k then val a else lookup key val l k := by
  by_cases h : key a = k <;> simp [lookup, h]

theorem lookup_eq_zero {l : List α} {k : K} (h : ∀ a ∈ l, key a ≠ k) : lookup key val l k = 0 := by
  induction l with
  | nil => rfl
  | cons a l ih =>
    rw [lookup_cons, if_neg (h a List.mem_cons_self)]
    exact ih fun b hb => h b (List.mem_cons_of_mem a hb)

theorem lookup_append_left {l₁ l₂ : List α} {k : K} (h : ∀ a ∈ l₂, key a ≠ k) :
    lookup key val (l₁ ++ l₂) k = lookup key val l₁ k := by
  induction l₁ with
  | nil => exact lookup_eq_zero key val h
  | cons a l ih => simp only [List.cons_append, lookup_cons, ih]

theorem lookup_append_right {l₁ l₂ : List α} {k : K} (h : ∀ a ∈ l₁, key a ≠ k) :
    lookup key val (l₁ ++ l₂) k = lookup key val l₂ k := by
  induction l₁ with
  | nil => rfl
  | cons a l ih =>
    rw [List.cons_append, lookup_cons, if_neg (h a List.mem_cons_self)]
    exact ih fun b hb => h b (List.mem_cons_of_mem a hb)

variable {key}

theorem Sorted.tail {a : α} {l : List α} (h : Sorted key (a :: l)) : Sorted key l :=
  (List.pairwise_cons.1 h).2

theorem Sorted.head_lt {a b : α} {l : List α} (h : Sorted key (a :: l)) (hb : b ∈ l) :
    key a < key b :=
  (List.pairwise_cons.1 h).1 b hb

/-- The head of a sorted list is below everything in its tail, so its key is absent there. -/
theorem Sorted.key_ne {a b : α} {l : List α} (h : Sorted key (a :: l)) (hb : b ∈ l) :
    key b ≠ key a :=
  (h.head_lt hb).ne'

theorem lookup_of_mem {l : List α} (h : Sorted key l) {a : α} (ha : a ∈ l) :
    lookup key val l (key a) = val a := by
  induction l with
  | nil => simp at ha
  | cons c l ih =>
    rw [lookup_cons]
    rcases List.mem_cons.1 ha with rfl | ha
    · rw [if_pos rfl]
    · rw [if_neg (h.key_ne ha).symm]
      exact ih h.tail ha

/-- A key below the head of a sorted list is below every key of it. -/
theorem Sorted.lt_of_lt_head {a : α} {l : List α} (h : Sorted key (a :: l)) {k : K}
    (hk : k < key a) : ∀ b ∈ a :: l, k < key b := by
  intro b hb
  rcases List.mem_cons.1 hb with rfl | hb
  · exact hk
  · exact lt_trans hk (h.head_lt hb)

/-- A sorted list read below its head key reads zero. -/
theorem lookup_eq_zero_of_lt {a : α} {l : List α} (h : Sorted key (a :: l)) {k : K}
    (hk : k < key a) : lookup key val (a :: l) k = 0 :=
  lookup_eq_zero key val fun b hb => (h.lt_of_lt_head hk b hb).ne'

theorem lookup_map {β : Type*} (g : β → α) (l : List β) (k : K) :
    lookup key val (l.map g) k = lookup (fun b => key (g b)) (fun b => val (g b)) l k := by
  induction l with
  | nil => rfl
  | cons b l ih => rw [List.map_cons, lookup_cons, lookup_cons, ih]

/-- A map of values that keeps zero commutes with `lookup`. -/
theorem map_lookup {W : Type*} [Zero W] (f : V → W) (hf : f 0 = 0) (l : List α) (k : K) :
    f (lookup key val l k) = lookup key (fun a => f (val a)) l k := by
  induction l with
  | nil => exact hf
  | cons a l ih =>
    rw [lookup_cons, lookup_cons]
    split
    · rfl
    · exact ih

/-- A non-zero lookup is the value of an element with that key. -/
theorem exists_mem_of_lookup_ne_zero {l : List α} {k : K} (h : lookup key val l k ≠ 0) :
    ∃ a ∈ l, key a = k ∧ val a = lookup key val l k := by
  induction l with
  | nil => exact absurd rfl h
  | cons a l ih =>
    rw [lookup_cons] at h ⊢
    split
    · exact ⟨a, List.mem_cons_self, ‹_›, rfl⟩
    · rename_i hk
      rw [if_neg hk] at h
      obtain ⟨b, hb, hbk, hbv⟩ := ih h
      exact ⟨b, List.mem_cons_of_mem a hb, hbk, hbv⟩

theorem sorted_map {β : Type*} (g : β → α) {l : List β} :
    Sorted key (l.map g) ↔ Sorted (fun b => key (g b)) l :=
  List.pairwise_map

/-- The head of a sorted list has its least key. -/
theorem Sorted.head_le {a b : α} {l : List α} (h : Sorted key (a :: l)) (hb : b ∈ a :: l) :
    key a ≤ key b := by
  rcases List.mem_cons.1 hb with rfl | hb
  · exact le_rfl
  · exact (h.head_lt hb).le

/-- The value at `k` in a sorted list split around one of its elements, read off by comparing
`k` with that element's key. -/
theorem lookup_middle {l₁ l₂ : List α} {c : α} (hs : Sorted key (l₁ ++ c :: l₂)) (k : K) :
    lookup key val (l₁ ++ c :: l₂) k =
      if k < key c then lookup key val l₁ k
      else if k = key c then val c else lookup key val l₂ k := by
  obtain ⟨-, hs₂, hlt⟩ : Sorted key l₁ ∧ Sorted key (c :: l₂) ∧ _ := List.pairwise_append.1 hs
  split_ifs with hk heq
  · exact lookup_append_left key val fun b hb => (hs₂.lt_of_lt_head hk b hb).ne'
  · subst heq
    exact lookup_of_mem val hs (List.mem_append_right l₁ List.mem_cons_self)
  · have hgt : key c < k := lt_of_le_of_ne (not_lt.1 hk) (Ne.symm heq)
    rw [lookup_append_right key val fun b hb => (lt_trans (hlt b hb c List.mem_cons_self) hgt).ne,
      lookup_cons, if_neg (Ne.symm heq)]

variable (key)

/-- Bisection (`Coins.AmountOf`): compare `k` with the key at the middle index and read on in
the half that can hold it. -/
def bsearch : List α → K → V
  | [], _ => 0
  | [a], k => if key a = k then val a else 0
  | a :: b :: rest, k =>
    let coins := a :: b :: rest
    let midIdx := coins.length / 2
    let coin := coins.get ⟨midIdx, by simp [coins, midIdx]; omega⟩
    if k < key coin then bsearch (coins.take midIdx) k
    else if k = key coin then val coin
    else bsearch (coins.drop (midIdx + 1)) k
termination_by l => l.length

variable {key}

/-- On a sorted list, bisection reads what `lookup` reads. -/
theorem bsearch_eq_lookup (k : K) :
    ∀ l : List α, Sorted key l → bsearch key val l k = lookup key val l k
  | [], _ => by rw [bsearch, lookup_nil]
  | [a], _ => by rw [bsearch, lookup_cons, lookup_nil]
  | a :: b :: rest, hs => by
    have hmid : (a :: b :: rest).length / 2 < (a :: b :: rest).length := by simp; omega
    -- the part before the middle element, that element, and the part after it
    have hsplit := List.take_append_drop ((a :: b :: rest).length / 2) (a :: b :: rest)
    rw [List.drop_eq_getElem_cons hmid] at hsplit
    have htake := hs.sublist (List.take_sublist ((a :: b :: rest).length / 2) (a :: b :: rest))
    have hdrop := hs.sublist (List.drop_sublist ((a :: b :: rest).length / 2 + 1) (a :: b :: rest))
    rw [bsearch]
    conv_rhs => rw [← hsplit, lookup_middle val (hsplit.symm ▸ hs)]
    rw [bsearch_eq_lookup k _ htake, bsearch_eq_lookup k _ hdrop]
    rfl
termination_by l => l.length

end Lookup

section Spec

variable {key : α → K} {isZero : α → Bool} {add : α → α → Option α}

/-- What `add` must do for the merge to add lookups: keep the key and add the values. -/
def AddsValues (key : α → K) (val : α → V) [Add V] (add : α → α → Option α) : Prop :=
  ∀ a b r, add a b = some r → key r = key a ∧ val r = val a + val b

theorem mem_removeZero {l : List α} {c : α} :
    c ∈ removeZero isZero l ↔ c ∈ l ∧ isZero c = false := by
  simp [removeZero]

theorem mem_consNonZero {a c : α} {l : List α} (h : c ∈ consNonZero isZero a l) :
    c = a ∨ c ∈ l := by
  unfold consNonZero at h
  split at h
  · exact Or.inr h
  · exact List.mem_cons.1 h

theorem removeZero_cons (a : α) (l : List α) :
    removeZero isZero (a :: l) = consNonZero isZero a (removeZero isZero l) := by
  unfold removeZero consNonZero
  cases h : isZero a <;> simp [h]

theorem nonZero_consNonZero {a : α} {l : List α} (hl : ∀ c ∈ l, isZero c = false) :
    ∀ c ∈ consNonZero isZero a l, isZero c = false := by
  intro c hc
  unfold consNonZero at hc
  split at hc
  · exact hl c hc
  · rcases List.mem_cons.1 hc with rfl | hc
    · simpa using ‹¬isZero c = true›
    · exact hl c hc

/-- Every key the merge emits comes from one of its arguments. -/
theorem key_mem_mergeAdd (hkey : ∀ a b r, add a b = some r → key r = key a) :
    ∀ as bs cs, mergeAdd key isZero add as bs = some cs →
      ∀ c ∈ cs, key c ∈ as.map key ∨ key c ∈ bs.map key := by
  refine mergeAdd_induction ?_ ?_ ?_
  · intro bs cs h c hc
    cases h
    exact Or.inr (List.mem_map_of_mem (mem_removeZero.1 hc).1)
  · intro a as cs h c hc
    cases h
    exact Or.inl (List.mem_map_of_mem (mem_removeZero.1 hc).1)
  · intro a b as bs ih1 ih2 ih3 cs h c hc
    rw [mergeAdd_cons_cons] at h
    split_ifs at h with hlt heq
    · obtain ⟨t, ht, rfl⟩ := Option.map_eq_some_iff.1 h
      rcases mem_consNonZero hc with rfl | hc
      · exact Or.inl (by simp)
      · rcases ih1 t ht c hc with h' | h' <;> simp_all
    · obtain ⟨r, hr, h⟩ := Option.bind_eq_some_iff.1 h
      obtain ⟨t, ht, rfl⟩ := Option.map_eq_some_iff.1 h
      rcases mem_consNonZero hc with rfl | hc
      · exact Or.inl (by simp [hkey a b c hr])
      · rcases ih2 t ht c hc with h' | h' <;> simp_all
    · obtain ⟨t, ht, rfl⟩ := Option.map_eq_some_iff.1 h
      rcases mem_consNonZero hc with rfl | hc
      · exact Or.inr (by simp)
      · rcases ih3 t ht c hc with h' | h' <;> simp_all

/-- The merge emits no zero. -/
theorem nonZero_mergeAdd : ∀ as bs cs, mergeAdd key isZero add as bs = some cs →
    ∀ c ∈ cs, isZero c = false := by
  refine mergeAdd_induction ?_ ?_ ?_
  · intro bs cs h c hc
    cases h
    exact (mem_removeZero.1 hc).2
  · intro a as cs h c hc
    cases h
    exact (mem_removeZero.1 hc).2
  · intro a b as bs ih1 ih2 ih3 cs h
    rw [mergeAdd_cons_cons] at h
    split_ifs at h
    · obtain ⟨t, ht, rfl⟩ := Option.map_eq_some_iff.1 h
      exact nonZero_consNonZero (ih1 t ht)
    · obtain ⟨r, -, h⟩ := Option.bind_eq_some_iff.1 h
      obtain ⟨t, ht, rfl⟩ := Option.map_eq_some_iff.1 h
      exact nonZero_consNonZero (ih2 t ht)
    · obtain ⟨t, ht, rfl⟩ := Option.map_eq_some_iff.1 h
      exact nonZero_consNonZero (ih3 t ht)

theorem Sorted.removeZero {l : List α} (h : Sorted key l) : Sorted key (removeZero isZero l) :=
  List.Pairwise.filter _ h

theorem Sorted.consNonZero {a : α} {l : List α} (h : Sorted key l)
    (ha : ∀ c ∈ l, key a < key c) : Sorted key (consNonZero isZero a l) := by
  unfold SortedMerge.consNonZero
  split
  · exact h
  · exact List.Pairwise.cons ha h

/-- A bound below every key of both arguments is below every key of the merge. -/
theorem lt_key_mergeAdd (hkey : ∀ a b r, add a b = some r → key r = key a) {as bs t : List α}
    (ht : mergeAdd key isZero add as bs = some t) {x : K} (ha : ∀ y ∈ as, x < key y)
    (hb : ∀ y ∈ bs, x < key y) : ∀ c ∈ t, x < key c := by
  intro c hc
  rcases key_mem_mergeAdd hkey as bs t ht c hc with h' | h' <;>
    obtain ⟨y, hy, hyc⟩ := List.mem_map.1 h'
  · exact hyc ▸ ha y hy
  · exact hyc ▸ hb y hy

/-- The merge of sorted lists is sorted. -/
theorem sorted_mergeAdd (hkey : ∀ a b r, add a b = some r → key r = key a) :
    ∀ as bs cs, Sorted key as → Sorted key bs → mergeAdd key isZero add as bs = some cs →
      Sorted key cs := by
  refine mergeAdd_induction ?_ ?_ ?_
  · intro bs cs _ hb h
    cases h
    exact hb.removeZero
  · intro a as cs ha _ h
    cases h
    exact ha.removeZero
  · intro a b as bs ih1 ih2 ih3 cs ha hb h
    rw [mergeAdd_cons_cons] at h
    split_ifs at h with hlt heq
    · obtain ⟨t, ht, rfl⟩ := Option.map_eq_some_iff.1 h
      exact (ih1 t ha.tail hb ht).consNonZero
        (lt_key_mergeAdd hkey ht (fun y => ha.head_lt) (hb.lt_of_lt_head hlt))
    · obtain ⟨r, hr, h⟩ := Option.bind_eq_some_iff.1 h
      obtain ⟨t, ht, rfl⟩ := Option.map_eq_some_iff.1 h
      refine (ih2 t ha.tail hb.tail ht).consNonZero ?_
      rw [hkey a b r hr]
      exact lt_key_mergeAdd hkey ht (fun y => ha.head_lt) fun y hy => heq ▸ hb.head_lt hy
    · obtain ⟨t, ht, rfl⟩ := Option.map_eq_some_iff.1 h
      have hgt : key b < key a := lt_of_le_of_ne (not_lt.1 hlt) (Ne.symm heq)
      exact (ih3 t ha hb.tail ht).consNonZero
        (lt_key_mergeAdd hkey ht (ha.lt_of_lt_head hgt) (fun y => hb.head_lt))

/-- The merge fails exactly when `add` fails on two elements with one key. -/
theorem mergeAdd_eq_none_iff : ∀ as bs, Sorted key as → Sorted key bs →
    (mergeAdd key isZero add as bs = none ↔ ∃ a ∈ as, ∃ b ∈ bs, key a = key b ∧ add a b = none) := by
  refine mergeAdd_induction ?_ ?_ ?_
  · intro bs _ _
    simp
  · intro a as _ _
    simp
  · intro a b as bs ih1 ih2 ih3 ha hb
    rw [mergeAdd_cons_cons]
    split_ifs with hlt heq
    · -- `a` is below every key on the right, so it pairs with nothing
      rw [Option.map_eq_map, Option.map_eq_none_iff, ih1 ha.tail hb]
      constructor
      · rintro ⟨a', ha', b', hb', hk, hn⟩
        exact ⟨a', List.mem_cons_of_mem a ha', b', hb', hk, hn⟩
      · rintro ⟨a', ha', b', hb', hk, hn⟩
        rcases List.mem_cons.1 ha' with rfl | ha'
        · rcases List.mem_cons.1 hb' with rfl | hb'
          · exact absurd hk hlt.ne
          · exact absurd hk (lt_trans hlt (hb.head_lt hb')).ne
        · exact ⟨a', ha', b', hb', hk, hn⟩
    · cases hr : add a b with
      | none => exact iff_of_true rfl ⟨a, List.mem_cons_self, b, List.mem_cons_self, heq, hr⟩
      | some r =>
        simp only [Option.bind_eq_bind, Option.bind_some, Option.map_eq_map, Option.map_eq_none_iff,
          ih2 ha.tail hb.tail]
        constructor
        · rintro ⟨a', ha', b', hb', hk, hn⟩
          exact ⟨a', List.mem_cons_of_mem a ha', b', List.mem_cons_of_mem b hb', hk, hn⟩
        · rintro ⟨a', ha', b', hb', hk, hn⟩
          rcases List.mem_cons.1 ha' with rfl | ha' <;> rcases List.mem_cons.1 hb' with rfl | hb'
          · simp [hr] at hn
          · exact absurd (hk.symm.trans heq) (hb.key_ne hb')
          · exact absurd (hk.trans heq.symm) (ha.key_ne ha')
          · exact ⟨a', ha', b', hb', hk, hn⟩
    · have hgt : key b < key a := lt_of_le_of_ne (not_lt.1 hlt) (Ne.symm heq)
      rw [Option.map_eq_map, Option.map_eq_none_iff, ih3 ha hb.tail]
      constructor
      · rintro ⟨a', ha', b', hb', hk, hn⟩
        exact ⟨a', ha', b', List.mem_cons_of_mem b hb', hk, hn⟩
      · rintro ⟨a', ha', b', hb', hk, hn⟩
        rcases List.mem_cons.1 hb' with rfl | hb'
        · rcases List.mem_cons.1 ha' with rfl | ha'
          · exact absurd hk hgt.ne'
          · exact absurd hk (lt_trans hgt (ha.head_lt ha')).ne'
        · exact ⟨a', ha', b', hb', hk, hn⟩

section Values

variable [AddCommMonoid V] {val : α → V}

theorem lookup_consNonZero (hz : ∀ a, isZero a = true → val a = 0) {a : α} {l : List α}
    (ha : ∀ c ∈ l, key c ≠ key a) (k : K) :
    lookup key val (consNonZero isZero a l) k = lookup key val (a :: l) k := by
  unfold consNonZero
  split
  · rename_i hza
    rw [lookup_cons]
    split
    · rename_i hk
      subst hk
      rw [hz a hza, lookup_eq_zero key val ha]
    · rfl
  · rfl

theorem lookup_removeZero (hz : ∀ a, isZero a = true → val a = 0) {l : List α} (hs : Sorted key l)
    (k : K) : lookup key val (removeZero isZero l) k = lookup key val l k := by
  induction l with
  | nil => rfl
  | cons a l ih =>
    have hne : ∀ c ∈ removeZero isZero l, key c ≠ key a :=
      fun c hc => hs.key_ne (mem_removeZero.1 hc).1
    rw [removeZero_cons, lookup_consNonZero hz hne, lookup_cons, lookup_cons, ih hs.tail]

/-- The merge adds lookups key by key. -/
theorem lookup_mergeAdd (hz : ∀ a, isZero a = true → val a = 0) (hadd : AddsValues key val add) :
    ∀ as bs cs, Sorted key as → Sorted key bs → mergeAdd key isZero add as bs = some cs →
      ∀ k, lookup key val cs k = lookup key val as k + lookup key val bs k := by
  have hkey : ∀ a b r, add a b = some r → key r = key a := fun a b r h => (hadd a b r h).1
  refine mergeAdd_induction ?_ ?_ ?_
  · intro bs cs _ hb h k
    cases h
    rw [lookup_removeZero hz hb, lookup_nil, zero_add]
  · intro a as cs ha _ h k
    cases h
    rw [lookup_removeZero hz ha, lookup_nil, add_zero]
  · intro a b as bs ih1 ih2 ih3 cs ha hb h k
    rw [mergeAdd_cons_cons] at h
    split_ifs at h with hlt heq
    · obtain ⟨t, ht, rfl⟩ := Option.map_eq_some_iff.1 h
      have hbelow := hb.lt_of_lt_head hlt
      rw [lookup_consNonZero hz
        (fun c hc => (lt_key_mergeAdd hkey ht (fun y => ha.head_lt) hbelow c hc).ne'), lookup_cons,
        lookup_cons key val a as]
      by_cases hk : key a = k
      · subst hk
        rw [if_pos rfl, if_pos rfl, lookup_eq_zero key val fun y hy => (hbelow y hy).ne', add_zero]
      · rw [if_neg hk, if_neg hk, ih1 t ha.tail hb ht]
    · obtain ⟨r, hr, h⟩ := Option.bind_eq_some_iff.1 h
      obtain ⟨t, ht, rfl⟩ := Option.map_eq_some_iff.1 h
      obtain ⟨hrk, hrv⟩ := hadd a b r hr
      rw [lookup_consNonZero hz (fun c hc => hrk ▸
        (lt_key_mergeAdd hkey ht (fun y => ha.head_lt) (fun y hy => heq ▸ hb.head_lt hy) c hc).ne'),
        lookup_cons, lookup_cons key val a as, lookup_cons key val b bs, hrk, ← heq]
      by_cases hk : key a = k
      · rw [if_pos hk, if_pos hk, if_pos hk, hrv]
      · rw [if_neg hk, if_neg hk, if_neg hk, ih2 t ha.tail hb.tail ht]
    · obtain ⟨t, ht, rfl⟩ := Option.map_eq_some_iff.1 h
      have hgt : key b < key a := lt_of_le_of_ne (not_lt.1 hlt) (Ne.symm heq)
      have hbelow := ha.lt_of_lt_head hgt
      rw [lookup_consNonZero hz
        (fun c hc => (lt_key_mergeAdd hkey ht hbelow (fun y => hb.head_lt) c hc).ne'), lookup_cons,
        lookup_cons key val b bs]
      by_cases hk : key b = k
      · subst hk
        rw [if_pos rfl, if_pos rfl, lookup_eq_zero key val fun y hy => (hbelow y hy).ne', zero_add]
      · rw [if_neg hk, if_neg hk, ih3 t ha hb.tail ht]

/-- Two sorted lists of non-zero elements with the same lookups are equal, provided an element
is determined by its key and value. -/
theorem eq_of_lookup_eq (hinj : ∀ x y, key x = key y → val x = val y → x = y) :
    ∀ l₁ l₂ : List α, Sorted key l₁ → Sorted key l₂ → (∀ c ∈ l₁, val c ≠ 0) →
      (∀ c ∈ l₂, val c ≠ 0) → (∀ k, lookup key val l₁ k = lookup key val l₂ k) → l₁ = l₂ := by
  intro l₁
  induction l₁ with
  | nil =>
    rintro (_ | ⟨b, l₂⟩) - hs₂ - hz₂ h
    · rfl
    · have := h (key b)
      rw [lookup_nil, lookup_of_mem val hs₂ List.mem_cons_self] at this
      exact absurd this.symm (hz₂ b List.mem_cons_self)
  | cons a l₁ ih =>
    rintro (_ | ⟨b, l₂⟩) hs₁ hs₂ hz₁ hz₂ h
    · have := h (key a)
      rw [lookup_nil, lookup_of_mem val hs₁ List.mem_cons_self] at this
      exact absurd this (hz₁ a List.mem_cons_self)
    · rcases lt_trichotomy (key a) (key b) with hlt | heq | hgt
      · have := h (key a)
        rw [lookup_of_mem val hs₁ List.mem_cons_self, lookup_eq_zero_of_lt val hs₂ hlt] at this
        exact absurd this (hz₁ a List.mem_cons_self)
      · have hv := h (key a)
        rw [lookup_of_mem val hs₁ List.mem_cons_self, heq,
          lookup_of_mem val hs₂ List.mem_cons_self] at hv
        obtain rfl := hinj a b heq hv
        refine congrArg (a :: ·) (ih l₂ hs₁.tail hs₂.tail (fun c hc => hz₁ c
          (List.mem_cons_of_mem a hc)) (fun c hc => hz₂ c (List.mem_cons_of_mem a hc)) fun k => ?_)
        by_cases hk : key a = k
        · subst hk
          rw [lookup_eq_zero key val fun c hc => hs₁.key_ne hc,
            lookup_eq_zero key val fun c hc => hs₂.key_ne hc]
        · have := h k
          rwa [lookup_cons, lookup_cons, if_neg hk, if_neg hk] at this
      · have := h (key b)
        rw [lookup_of_mem val hs₂ List.mem_cons_self, lookup_eq_zero_of_lt val hs₁ hgt] at this
        exact absurd this.symm (hz₂ b List.mem_cons_self)

end Values

end Spec

end Barkis.SortedMerge
