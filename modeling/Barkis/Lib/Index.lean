import Mathlib.Data.List.AList

/-!
# A secondary index of a finite map

An index of a map `m` holds, for every entry `a ↦ b` of `m` with `p b`, the key `key a b` mapped
back to `a`. Keys are computed and may fail to exist; an entry with `p b` must have one. Keys
do not collide when `key` is injective in `a` over a domain `D` holding every address of `m`.

* `Indexes.write`: a value written at `a`, given the index's entries after the write.
* `Indexes.update_of_p`, `Indexes.update_of_not_p`: the old key erased and the new one written
  when the new value satisfies `p`.
* `Indexes.insert_of_unindexed`: a value satisfying `p` written at an address the index does not
  name.
* `Indexes.erase`: an entry erased with its key.
* `Indexes.congr`: a value replaced by one with the same key and the same `p`.
-/

namespace Barkis.Index

variable {α β κ : Type} [DecidableEq α] [DecidableEq κ]

/-- Keys of addresses in `D` name their address. -/
def KeyInjective (key : α → β → Option κ) (D : α → Prop) : Prop :=
  ∀ ⦃a a' : α⦄ ⦃b b' : β⦄ ⦃k : κ⦄, D a → D a' → key a b = some k → key a' b' = some k → a = a'

/-- `idx` indexes exactly the entries of `m` that satisfy `p`, under their keys. -/
structure Indexes (key : α → β → Option κ) (p : β → Prop) (D : α → Prop)
    (m : AList fun _ : α => β) (idx : AList fun _ : κ => α) : Prop where
  dom : ∀ a b, m.lookup a = some b → D a
  key_isSome : ∀ a b, m.lookup a = some b → p b → (key a b).isSome
  lookup_eq_some : ∀ k a, idx.lookup k = some a ↔ ∃ b, m.lookup a = some b ∧ p b ∧ key a b = some k

variable {key : α → β → Option κ} {p : β → Prop} {D : α → Prop}
  {m : AList fun _ : α => β} {idx idx' : AList fun _ : κ => α} {a : α} {b b' : β} {k k' : κ}

namespace Indexes

/-- The empty map and its empty index. -/
theorem empty : Indexes key p D ∅ ∅ where
  dom _ _ h := by simp at h
  key_isSome _ _ h := by simp at h
  lookup_eq_some _ _ := by simp

/-- The one key of the index that names `a` is the key of its value. -/
theorem eq_of_lookup (h : Indexes key p D m idx) (ha : m.lookup a = some b)
    (hk : key a b = some k) {k'' : κ} (h'' : idx.lookup k'' = some a) : k'' = k := by
  obtain ⟨b'', hb'', -, hk''⟩ := (h.lookup_eq_some k'' a).1 h''
  rw [ha, Option.some.injEq] at hb''
  subst hb''
  exact Option.some.inj (hk''.symm.trans hk)

/-- A key of a value at `a` names no other address. -/
theorem eq_of_key (h : Indexes key p D m idx) (hinj : KeyInjective key D) (ha : D a)
    (hk : key a b = some k) {a' : α} (h' : idx.lookup k = some a') : a' = a := by
  obtain ⟨b'', hb'', -, hk''⟩ := (h.lookup_eq_some k a').1 h'
  exact hinj (h.dom a' b'' hb'') ha hk'' hk

/-- The index names no address whose value fails `p`. -/
theorem unindexed_of_not_p (h : Indexes key p D m idx) (ha : m.lookup a = some b) (hb : ¬p b)
    (k'' : κ) : idx.lookup k'' ≠ some a := by
  intro h''
  obtain ⟨b'', hb'', hp, -⟩ := (h.lookup_eq_some k'' a).1 h''
  rw [ha, Option.some.injEq] at hb''
  exact hb (hb'' ▸ hp)

/-- The index names no address outside the map. -/
theorem unindexed_of_none (h : Indexes key p D m idx) (ha : m.lookup a = none) (k'' : κ) :
    idx.lookup k'' ≠ some a := by
  intro h''
  obtain ⟨b'', hb'', -, -⟩ := (h.lookup_eq_some k'' a).1 h''
  rw [ha] at hb''
  cases hb''

/-- Writing `b'` at `a`: the new index names `a` exactly under the key of `b'` when `p b'`, and
names every other address as before. -/
theorem write (h : Indexes key p D m idx) (ha : D a) (hb' : p b' → (key a b').isSome)
    (hidx : ∀ k'' a', idx'.lookup k'' = some a' ↔
      (a' = a ∧ p b' ∧ key a b' = some k'') ∨ (a' ≠ a ∧ idx.lookup k'' = some a')) :
    Indexes key p D (m.insert a b') idx' where
  dom a' b'' hl := by
    by_cases h' : a' = a
    · exact h' ▸ ha
    · rw [AList.lookup_insert_ne h'] at hl
      exact h.dom a' b'' hl
  key_isSome a' b'' hl hp := by
    by_cases h' : a' = a
    · subst h'
      rw [AList.lookup_insert, Option.some.injEq] at hl
      exact hl ▸ hb' (hl ▸ hp)
    · rw [AList.lookup_insert_ne h'] at hl
      exact h.key_isSome a' b'' hl hp
  lookup_eq_some k'' a' := by
    rw [hidx]
    by_cases h' : a' = a
    · subst h'
      simp
    · simp [h', AList.lookup_insert_ne h', h.lookup_eq_some]

/-- A value that satisfies `p`, at an address the index does not name: its key is added. -/
theorem insert_of_unindexed (h : Indexes key p D m idx) (hinj : KeyInjective key D) (ha : D a)
    (hfree : ∀ k'', idx.lookup k'' ≠ some a) (hp : p b') (hk' : key a b' = some k') :
    Indexes key p D (m.insert a b') (idx.insert k' a) := by
  refine h.write ha (fun _ => by simp [hk']) fun k'' a' => ?_
  by_cases hk'' : k'' = k'
  · subst hk''
    rw [AList.lookup_insert]
    constructor
    · rintro ⟨⟩
      exact Or.inl ⟨rfl, hp, hk'⟩
    · rintro (⟨rfl, -⟩ | ⟨hne, h'⟩)
      · rfl
      · exact absurd (h.eq_of_key hinj ha hk' h') hne
  · rw [AList.lookup_insert_ne hk'']
    constructor
    · intro h'
      exact Or.inr ⟨fun heq => hfree k'' (heq ▸ h'), h'⟩
    · rintro (⟨-, -, hk⟩ | ⟨-, h'⟩)
      · exact absurd (Option.some.inj (hk.symm.trans hk')) hk''
      · exact h'

/-- A value that satisfies `p` replaces one with key `k`: `k` is erased and the new key added. -/
theorem update_of_p (h : Indexes key p D m idx) (hinj : KeyInjective key D)
    (ha : m.lookup a = some b) (hk : key a b = some k) (hp : p b') (hk' : key a b' = some k') :
    Indexes key p D (m.insert a b') ((idx.erase k).insert k' a) := by
  have hD := h.dom a b ha
  refine h.write hD (fun _ => by simp [hk']) fun k'' a' => ?_
  by_cases hk'' : k'' = k'
  · subst hk''
    rw [AList.lookup_insert]
    constructor
    · rintro ⟨⟩
      exact Or.inl ⟨rfl, hp, hk'⟩
    · rintro (⟨rfl, -⟩ | ⟨hne, h'⟩)
      · rfl
      · exact absurd (h.eq_of_key hinj hD hk' h') hne
  · rw [AList.lookup_insert_ne hk'']
    by_cases hkk : k'' = k
    · rw [hkk, AList.lookup_erase]
      simp only [reduceCtorEq, false_iff, not_or, not_and]
      refine ⟨fun _ _ hk₂ => hk'' ?_, fun hne h' => hne (h.eq_of_key hinj hD hk h')⟩
      exact hkk.trans (Option.some.inj (hk₂.symm.trans hk'))
    · rw [AList.lookup_erase_ne hkk]
      constructor
      · intro h'
        exact Or.inr ⟨fun heq => hkk (h.eq_of_lookup ha hk (heq ▸ h')), h'⟩
      · rintro (⟨-, -, hk⟩ | ⟨-, h'⟩)
        · exact absurd (Option.some.inj (hk.symm.trans hk')) hk''
        · exact h'

/-- A value that fails `p` replaces one with key `k`: `k` is erased. -/
theorem update_of_not_p (h : Indexes key p D m idx) (hinj : KeyInjective key D)
    (ha : m.lookup a = some b) (hk : key a b = some k) (hp : ¬p b') :
    Indexes key p D (m.insert a b') (idx.erase k) := by
  have hD := h.dom a b ha
  refine h.write hD (fun h' => absurd h' hp) fun k'' a' => ?_
  by_cases hkk : k'' = k
  · subst hkk
    simp only [AList.lookup_erase, reduceCtorEq, false_iff, not_or, not_and]
    exact ⟨fun _ h' => absurd h' hp, fun hne h' => hne (h.eq_of_key hinj hD hk h')⟩
  · rw [AList.lookup_erase_ne hkk]
    constructor
    · intro h'
      exact Or.inr ⟨fun heq => hkk (h.eq_of_lookup ha hk (heq ▸ h')), h'⟩
    · rintro (⟨-, h', -⟩ | ⟨-, h'⟩)
      · exact absurd h' hp
      · exact h'

/-- An entry erased with its key. -/
theorem erase (h : Indexes key p D m idx) (hinj : KeyInjective key D) (ha : m.lookup a = some b)
    (hk : key a b = some k) : Indexes key p D (m.erase a) (idx.erase k) where
  dom a' b'' hl := by
    by_cases h' : a' = a
    · subst h'
      simp at hl
    · rw [AList.lookup_erase_ne h'] at hl
      exact h.dom a' b'' hl
  key_isSome a' b'' hl hp := by
    by_cases h' : a' = a
    · subst h'
      simp at hl
    · rw [AList.lookup_erase_ne h'] at hl
      exact h.key_isSome a' b'' hl hp
  lookup_eq_some k'' a' := by
    have hD := h.dom a b ha
    by_cases h' : a' = a
    · subst h'
      simp only [AList.lookup_erase, reduceCtorEq, false_and, exists_false, iff_false]
      by_cases hkk : k'' = k
      · subst hkk
        simp
      · rw [AList.lookup_erase_ne hkk]
        exact fun h'' => hkk (h.eq_of_lookup ha hk h'')
    · rw [AList.lookup_erase_ne h', ← h.lookup_eq_some]
      by_cases hkk : k'' = k
      · subst hkk
        simp only [AList.lookup_erase, reduceCtorEq, false_iff]
        exact fun h'' => h' (h.eq_of_key hinj hD hk h'')
      · rw [AList.lookup_erase_ne hkk]

/-- A value replaced by one with the same key and the same `p`: the index stays. -/
theorem congr (h : Indexes key p D m idx) (ha : m.lookup a = some b) (hp : p b' ↔ p b)
    (hk : key a b' = key a b) : Indexes key p D (m.insert a b') idx := by
  refine h.write (h.dom a b ha) (fun hp' => hk ▸ h.key_isSome a b ha (hp.1 hp')) fun k'' a' => ?_
  by_cases h' : a' = a
  · subst h'
    rw [h.lookup_eq_some, hp, hk, ha]
    simp
  · simp [h']

end Indexes

end Barkis.Index
