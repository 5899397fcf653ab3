import Barkis.Lib.Ledger
import Mathlib.Algebra.BigOperators.Group.Finset.Basic

/-!
# Reference-counted records

A store `H` of records keyed by `κ`, each with a reference count `count`, and the references that
point into it, as a multiset of keys. `Tracks count H refs`: the count of every record is the
number of references to its key, and every record has a positive count, so a record exists
exactly where a reference points, and goes with its last reference.

* `Tracks.addRef`, `Tracks.create`, `Tracks.dropRef`, `Tracks.dropLast`: taking a reference to a
  record, creating a record with its first reference, and dropping a reference keep the tracking.
* `Tracks.restrict`: deleting the records of a part of the keys, with their references.
* `Tracks.sum_eq_card`: the counts of all records add up to the number of references.

The references a store holds are the images of its entries (`image`); `image_insert`,
`image_erase_of_lookup` and the `count_image_foldl_erase` lemmas say how its writes move them.
-/

namespace Barkis.RefCount

variable {κ β γ : Type} [DecidableEq κ]

/-! ## The images of a store's entries -/

section Image

variable (g : κ → β → γ)

/-- What the entries of `s` point to under `g`. -/
def image (s : AList fun _ : κ => β) : Multiset γ := ↑(s.entries.map fun e => g e.1 e.2)

omit [DecidableEq κ] in
@[simp] theorem image_empty : image g (∅ : AList fun _ : κ => β) = 0 := rfl

omit [DecidableEq κ] in
theorem card_image (s : AList fun _ : κ => β) : Multiset.card (image g s) = s.keys.length := by
  simp [image, AList.keys, List.keys]

theorem mem_image {s : AList fun _ : κ => β} {x : γ} :
    x ∈ image g s ↔ ∃ a b, s.lookup a = some b ∧ g a b = x := by
  simp only [image, Multiset.mem_coe, List.mem_map]
  constructor
  · rintro ⟨⟨a, b⟩, he, rfl⟩
    exact ⟨a, b, AList.mem_lookup_iff.2 he, rfl⟩
  · rintro ⟨a, b, hl, rfl⟩
    exact ⟨⟨a, b⟩, AList.mem_lookup_iff.1 hl, rfl⟩

theorem image_insert (s : AList fun _ : κ => β) (a : κ) (b : β) :
    image g (s.insert a b) = g a b ::ₘ image g (s.erase a) := by
  simp only [image, AList.entries_insert, List.map_cons, Multiset.cons_coe]
  rfl

/-- A stored entry is one of the images, beside those of the other entries. -/
theorem image_erase_of_lookup {s : AList fun _ : κ => β} {a : κ} {b : β}
    (h : s.lookup a = some b) : image g s = g a b ::ₘ image g (s.erase a) := by
  obtain ⟨b', l₁, l₂, -, hs, hk⟩ := List.exists_of_kerase (AList.mem_keys.1 (AList.lookup_isSome.1
    (by rw [h]; rfl)))
  have hb : b' = b := by
    have hl : s.lookup a = some b' := AList.mem_lookup_iff.2 (by rw [hs]; simp)
    rw [h] at hl
    exact (Option.some_injective _ hl).symm
  subst hb
  have he : (s.erase a).entries = l₁ ++ l₂ := hk
  simp only [image, hs, he, List.map_append, List.map_cons, Multiset.cons_coe, Multiset.coe_eq_coe]
  exact List.perm_middle

theorem image_erase_of_notMem {s : AList fun _ : κ => β} {a : κ} (h : a ∉ s) :
    image g (s.erase a) = image g s := by
  have he : (s.erase a).entries = s.entries := List.kerase_of_notMem_keys h
  simp only [image, he]

theorem image_erase_le (s : AList fun _ : κ => β) (a : κ) : image g (s.erase a) ≤ image g s := by
  cases hs : s.lookup a with
  | none => rw [image_erase_of_notMem g (AList.lookup_eq_none.1 hs)]
  | some b =>
    rw [image_erase_of_lookup g hs]
    exact Multiset.le_cons_self _ _

variable [DecidableEq γ]

/-- Erasing a key none of whose values points to `x` keeps the references to `x`. -/
theorem count_image_erase_of_ne (s : AList fun _ : κ => β) {a : κ} {x : γ}
    (h : ∀ b, g a b ≠ x) : (image g (s.erase a)).count x = (image g s).count x := by
  cases hs : s.lookup a with
  | none => rw [image_erase_of_notMem g (AList.lookup_eq_none.1 hs)]
  | some b => rw [image_erase_of_lookup g hs, Multiset.count_cons_of_ne (h b).symm]

/-- Erasing keys none of whose values points to `x` keeps the references to `x`. -/
theorem count_image_foldl_erase_of_ne (l : List κ) (s : AList fun _ : κ => β) {x : γ}
    (h : ∀ a ∈ l, ∀ b, g a b ≠ x) :
    (image g (l.foldl (fun s k => s.erase k) s)).count x = (image g s).count x := by
  induction l generalizing s with
  | nil => rfl
  | cons k l ih =>
    rw [List.foldl_cons, ih (s.erase k) fun a ha => h a (List.mem_cons_of_mem _ ha)]
    exact count_image_erase_of_ne g s (h k List.mem_cons_self)

/-- Erasing every key whose entry points to `x` leaves no reference to `x`. -/
theorem count_image_foldl_erase_eq_zero (l : List κ) (s : AList fun _ : κ => β) {x : γ}
    (h : ∀ a b, s.lookup a = some b → g a b = x → a ∈ l) :
    (image g (l.foldl (fun s k => s.erase k) s)).count x = 0 := by
  rw [Multiset.count_eq_zero, mem_image]
  rintro ⟨a, b, hl, hx⟩
  rw [Ledger.lookup_foldl_erase] at hl
  split_ifs at hl with ha
  exact ha (h a b hl hx)

/-- Erasing the keys of `l`, which are those of the entries pointing outside `p`, leaves the
images inside `p`. -/
theorem image_foldl_erase (l : List κ) (s : AList fun _ : κ => β) (p : γ → Prop)
    [DecidablePred p] (hin : ∀ a ∈ l, ∀ b, ¬p (g a b))
    (hout : ∀ a b, s.lookup a = some b → ¬p (g a b) → a ∈ l) :
    image g (l.foldl (fun s k => s.erase k) s) = (image g s).filter p := by
  ext x
  rw [Multiset.count_filter]
  split_ifs with hx
  · exact count_image_foldl_erase_of_ne g l s fun a ha b hb => hin a ha b (hb ▸ hx)
  · exact count_image_foldl_erase_eq_zero g l s fun a b hl hb => hout a b hl (hb ▸ hx)

/-- Where only the entry at `a` can point to `x`, at most one reference does. -/
theorem count_image_le_one (s : AList fun _ : κ => β) {x : γ} (a : κ)
    (h : ∀ a' b, s.lookup a' = some b → g a' b = x → a' = a) : (image g s).count x ≤ 1 := by
  -- no entry of the store without `a` points to `x`
  have hrest : (image g (s.erase a)).count x = 0 := by
    rw [Multiset.count_eq_zero, mem_image]
    rintro ⟨a', b, hl, hx⟩
    have ha' := h a' b (Ledger.lookup_of_lookup_erase hl) hx
    subst ha'
    rw [AList.lookup_erase] at hl
    cases hl
  cases hs : s.lookup a with
  | none => rw [← image_erase_of_notMem g (AList.lookup_eq_none.1 hs), hrest]; omega
  | some b =>
    rw [image_erase_of_lookup g hs, Multiset.count_cons, hrest]
    split_ifs <;> omega

end Image

/-! ## Counts that track the references -/

section Tracks

variable (count : β → ℕ)

/-- The count of the record at `k`, zero where there is none. -/
def countAt (H : AList fun _ : κ => β) (k : κ) : ℕ := ((H.lookup k).map count).getD 0

/-- The records of `H` count the references `refs`, and none has a count of zero. -/
structure Tracks (H : AList fun _ : κ => β) (refs : Multiset κ) : Prop where
  countAt_eq : ∀ k, countAt count H k = refs.count k
  pos : ∀ k b, H.lookup k = some b → 0 < count b

variable {count} {H : AList fun _ : κ => β} {refs refs' : Multiset κ} {k : κ} {b b' : β}

theorem Tracks.count_eq (h : Tracks count H refs) (hb : H.lookup k = some b) :
    count b = refs.count k := by
  have := h.countAt_eq k
  rwa [countAt, hb, Option.map_some, Option.getD_some] at this

/-- A key no reference points to has no record. -/
theorem Tracks.lookup_eq_none (h : Tracks count H refs) (hk : k ∉ refs) : H.lookup k = none := by
  cases hb : H.lookup k with
  | none => rfl
  | some b =>
    have := h.count_eq hb
    rw [Multiset.count_eq_zero_of_notMem hk] at this
    exact absurd this (h.pos k b hb).ne'

/-- A key a reference points to has a record. -/
theorem Tracks.mem (h : Tracks count H refs) (hk : k ∈ refs) : k ∈ H := by
  have hc := h.countAt_eq k
  rw [← AList.lookup_isSome]
  cases hb : H.lookup k with
  | none =>
    rw [countAt, hb] at hc
    exact absurd hc.symm (Multiset.count_ne_zero.2 hk)
  | some b => rfl

/-- A record written at `k` with the count the new references have there. -/
theorem Tracks.insert (h : Tracks count H refs) (hk : count b = refs'.count k) (hb : 0 < count b)
    (hrest : ∀ j, j ≠ k → refs'.count j = refs.count j) : Tracks count (H.insert k b) refs' where
  countAt_eq j := by
    by_cases hj : j = k
    · subst hj
      simp [countAt, hk]
    · rw [countAt, AList.lookup_insert_ne hj, hrest j hj]
      exact h.countAt_eq j
  pos j b' hl := by
    rw [Ledger.lookup_insert_ite] at hl
    split_ifs at hl
    · cases hl
      exact hb
    · exact h.pos j b' hl

/-- The record at `k` deleted, with the references to it. -/
theorem Tracks.erase (h : Tracks count H refs) (hk : refs'.count k = 0)
    (hrest : ∀ j, j ≠ k → refs'.count j = refs.count j) : Tracks count (H.erase k) refs' where
  countAt_eq j := by
    by_cases hj : j = k
    · subst hj
      simp [countAt, hk]
    · rw [countAt, AList.lookup_erase_ne hj, hrest j hj]
      exact h.countAt_eq j
  pos j b' hl := h.pos j b' (Ledger.lookup_of_lookup_erase hl)

/-- A new reference to a record counts one more. -/
theorem Tracks.addRef (h : Tracks count H refs) (hb : H.lookup k = some b)
    (hb' : count b' = count b + 1) : Tracks count (H.insert k b') (k ::ₘ refs) :=
  h.insert (by rw [hb', h.count_eq hb, Multiset.count_cons_self]) (by omega)
    fun j hj => Multiset.count_cons_of_ne hj _

/-- A record created with its first reference. -/
theorem Tracks.create (h : Tracks count H refs) (hk : k ∉ refs) (hb : count b = 1) :
    Tracks count (H.insert k b) (k ::ₘ refs) :=
  h.insert (by rw [hb, Multiset.count_cons_self, Multiset.count_eq_zero_of_notMem hk]) (by omega)
    fun j hj => Multiset.count_cons_of_ne hj _

/-- A reference dropped from a record that keeps others. -/
theorem Tracks.dropRef (h : Tracks count H (k ::ₘ refs)) (hb : H.lookup k = some b)
    (hb' : count b' + 1 = count b) (hpos : 0 < count b') : Tracks count (H.insert k b') refs :=
  h.insert (by
      have := h.count_eq hb
      rw [Multiset.count_cons_self] at this
      omega) hpos
    fun j hj => (Multiset.count_cons_of_ne hj _).symm

/-- The last reference to a record dropped, with the record. -/
theorem Tracks.dropLast (h : Tracks count H (k ::ₘ refs)) (hb : H.lookup k = some b)
    (h1 : count b = 1) : Tracks count (H.erase k) refs :=
  h.erase (by
      have := h.count_eq hb
      rw [Multiset.count_cons_self] at this
      omega)
    fun j hj => (Multiset.count_cons_of_ne hj _).symm

/-- The records outside `p` deleted, with the references to them. -/
theorem Tracks.restrict (h : Tracks count H refs) (p : κ → Prop) [DecidablePred p]
    {H' : AList fun _ : κ => β} (hH : ∀ j, H'.lookup j = if p j then H.lookup j else none) :
    Tracks count H' (refs.filter p) where
  countAt_eq j := by
    rw [Multiset.count_filter, countAt, hH j]
    split_ifs
    · exact h.countAt_eq j
    · rfl
  pos j b' hl := by
    rw [hH j] at hl
    split_ifs at hl
    exact h.pos j b' hl

/-- The counts of all records add up to the number of references. -/
theorem Tracks.sum_eq_card (h : Tracks count H refs) :
    (H.entries.map fun e => count e.2).sum = Multiset.card refs := by
  have hmap : (H.entries.map fun e => count e.2) = H.keys.map (countAt count H) := by
    rw [AList.keys, List.keys, List.map_map]
    apply List.map_congr_left
    intro e he
    have hl : H.lookup e.1 = some e.2 := AList.mem_lookup_iff.2 he
    simp only [Function.comp_apply, countAt, hl, Option.map_some, Option.getD_some]
  have hsub : ∀ j ∈ refs, j ∈ H.keys.toFinset := fun j hj =>
    List.mem_toFinset.2 (AList.mem_keys.1 (h.mem hj))
  rw [hmap, ← List.sum_toFinset _ H.keys_nodup, ← Multiset.sum_count_eq_card hsub]
  exact Finset.sum_congr rfl fun j _ => h.countAt_eq j

end Tracks

end Barkis.RefCount
