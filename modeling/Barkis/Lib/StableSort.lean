import Mathlib

/-!
# Stable sorting by a key

A list ordered by a key `f` is fixed by its key classes, the members of each key in the order the
list has them (`eq_of_keySorted`). A stable sort by `f` (`sortByKey`, the `mergeSort` of the
standard library) keeps every class as its input has it (`keyClass_sortByKey`), so the sort is the
one list ordered by `f` with the classes of its input (`eq_sortByKey`).
-/

namespace Barkis.StableSort

variable {β κ : Type*} [LinearOrder κ] (f : β → κ)

/-- `l` is ordered by the key `f`. -/
def KeySorted (l : List β) : Prop := l.Pairwise fun a b => f a ≤ f b

/-- The members of `l` with key `k`, in order. -/
def keyClass (l : List β) (k : κ) : List β := l.filter fun b => f b = k

/-- The stable sort of `l` by the key `f`. -/
def sortByKey (l : List β) : List β := l.mergeSort fun a b => decide (f a ≤ f b)

theorem keyLe_trans (a b c : β) (hab : decide (f a ≤ f b) = true) (hbc : decide (f b ≤ f c) = true) :
    decide (f a ≤ f c) = true := by
  simp only [decide_eq_true_eq] at *
  exact le_trans hab hbc

theorem keyLe_total (a b : β) : (decide (f a ≤ f b) || decide (f b ≤ f a)) = true := by
  simpa using le_total (f a) (f b)

variable {f}

@[simp]
theorem keyClass_nil (k : κ) : keyClass f [] k = [] := rfl

theorem keyClass_cons (a : β) (l : List β) (k : κ) :
    keyClass f (a :: l) k = if f a = k then a :: keyClass f l k else keyClass f l k := by
  by_cases h : f a = k <;> simp [keyClass, h]

theorem keyClass_append (l₁ l₂ : List β) (k : κ) :
    keyClass f (l₁ ++ l₂) k = keyClass f l₁ k ++ keyClass f l₂ k := List.filter_append ..

/-- Filtering by a test on the key keeps a class whole or drops it. -/
theorem keyClass_filter_key (f : β → κ) (g : κ → Bool) (l : List β) (k : κ) :
    keyClass f (l.filter fun b => g (f b)) k = if g k then keyClass f l k else [] := by
  rw [keyClass, List.filter_filter]
  split_ifs with hg
  · refine List.filter_congr fun b _ => ?_
    by_cases hb : f b = k
    · simp [hb, hg]
    · simp [hb]
  · refine List.filter_eq_nil_iff.2 fun b _ => ?_
    by_cases hb : f b = k <;> simp [hb, hg]

theorem mem_keyClass {l : List β} {k : κ} {b : β} : b ∈ keyClass f l k ↔ b ∈ l ∧ f b = k := by
  simp [keyClass]

/-- The head of a sorted list has the least key. -/
theorem le_of_keySorted_cons {a b : β} {l : List β} (h : KeySorted f (a :: l)) (hb : b ∈ a :: l) :
    f a ≤ f b := by
  rcases List.mem_cons.1 hb with rfl | hb
  · exact le_rfl
  · exact List.rel_of_pairwise_cons h hb

/-- Two lists ordered by a key are equal when every key class is. -/
theorem eq_of_keySorted {l₁ l₂ : List β} (h₁ : KeySorted f l₁) (h₂ : KeySorted f l₂)
    (h : ∀ k, keyClass f l₁ k = keyClass f l₂ k) : l₁ = l₂ := by
  induction l₁ generalizing l₂ with
  | nil =>
    cases l₂ with
    | nil => rfl
    | cons b l₂ => simpa [keyClass_cons] using h (f b)
  | cons a l₁ ih =>
    cases l₂ with
    | nil => simpa [keyClass_cons] using (h (f a)).symm
    | cons b l₂ =>
      -- each head is in the other list's class of its key, so the heads have one key
      have ha : a ∈ b :: l₂ := (mem_keyClass.1 (h (f a) ▸ mem_keyClass.2 ⟨List.mem_cons_self, rfl⟩)).1
      have hb : b ∈ a :: l₁ :=
        (mem_keyClass.1 ((h (f b)).symm ▸ mem_keyClass.2 ⟨List.mem_cons_self, rfl⟩)).1
      have hab : f a = f b := le_antisymm (le_of_keySorted_cons h₁ hb) (le_of_keySorted_cons h₂ ha)
      have hhead := h (f a)
      rw [keyClass_cons, keyClass_cons, if_pos rfl, if_pos hab.symm, List.cons.injEq] at hhead
      obtain ⟨rfl, -⟩ := hhead
      refine congrArg (a :: ·) (ih (List.Pairwise.of_cons h₁) (List.Pairwise.of_cons h₂) fun k => ?_)
      have hk := h k
      rw [keyClass_cons, keyClass_cons] at hk
      by_cases hak : f a = k
      · rw [if_pos hak, if_pos hak] at hk
        exact (List.cons.inj hk).2
      · rwa [if_neg hak, if_neg hak] at hk

theorem keySorted_sortByKey (l : List β) : KeySorted f (sortByKey f l) := by
  have h := List.pairwise_mergeSort (keyLe_trans f) (keyLe_total f) l
  simpa only [KeySorted, sortByKey, decide_eq_true_eq] using h

/-- A stable sort keeps each key class as it was. -/
theorem keyClass_sortByKey (l : List β) (k : κ) : keyClass f (sortByKey f l) k = keyClass f l k := by
  -- the class has one key, so it stays a sublist of the sort, and of the sort's class
  have hle : (keyClass f l k).Pairwise fun a b => decide (f a ≤ f b) :=
    List.pairwise_of_forall_mem_list fun a ha b hb => by
      rw [(mem_keyClass.1 ha).2, (mem_keyClass.1 hb).2]
      simp
  have hsub : List.Sublist (keyClass f l k) (keyClass f (sortByKey f l) k) := by
    have h := (List.sublist_mergeSort (keyLe_trans f) (keyLe_total f) hle List.filter_sublist).filter
      fun b => decide (f b = k)
    rwa [show (keyClass f l k).filter (fun b => decide (f b = k)) = keyClass f l k from
      List.filter_eq_self.2 fun a ha => by simpa using (mem_keyClass.1 ha).2] at h
  -- the sort is a permutation, so both classes have the same length
  have hlen : (keyClass f l k).length = (keyClass f (sortByKey f l) k).length :=
    ((List.mergeSort_perm l _).filter _).length_eq.symm
  exact (hsub.eq_of_length hlen).symm

/-- The stable sort of `l` is the one list ordered by the key with the classes of `l`. -/
theorem eq_sortByKey {l l' : List β} (hs : KeySorted f l') (h : ∀ k, keyClass f l' k = keyClass f l k) :
    l' = sortByKey f l :=
  eq_of_keySorted hs (keySorted_sortByKey l) fun k => (h k).trans (keyClass_sortByKey l k).symm

end Barkis.StableSort
