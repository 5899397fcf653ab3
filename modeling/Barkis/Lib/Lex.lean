import Mathlib.Data.List.Lex
import Mathlib.Order.Cover
import Mathlib.Order.BoundedOrder.Basic

/-!
# Lexicographic order on lists

Byte-string keys are compared as lists under the lexicographic order of a linear order. A shared
front does not change how two lists compare (`append_lt_append_iff`). Let `p` be `q ++ [b]`
followed by top elements, and let `c` cover `b`. The lists at or above `p` and below `q ++ [c]`
are exactly those that extend `p` (`le_and_lt_iff_isPrefix`). `q ++ [c]` is the least list above all
of them (`le_of_forall_prefix_lt`). When `p` is top elements only, no list is above all its
extensions (`exists_prefix_ge`). Below `y` followed by a least element lie the lists up to `y`
(`lt_append_bot_iff`).

Bytes are `UInt8` with `0xFF` on top, and `b + 1` covers every byte `b` below it. That order is a
scoped instance: it is there where `Barkis.Lex` is open.
-/

namespace Barkis.Lex

section Order

variable {α : Type*} [LinearOrder α]

theorem nil_le (x : List α) : [] ≤ x := not_lt.1 (List.not_lt_nil x)

theorem not_cons_le_nil (a : α) (l : List α) : ¬a :: l ≤ [] := not_le.2 (List.nil_lt_cons a l)

theorem cons_le_cons_iff {a b : α} {l l' : List α} : a :: l ≤ b :: l' ↔ a < b ∨ a = b ∧ l ≤ l' := by
  rw [← not_lt, List.cons_lt_cons_iff]
  rcases lt_trichotomy a b with h | rfl | h
  · simp [h, h.ne', h.not_gt]
  · simp
  · simp [h, h.ne', h.not_gt]

theorem append_lt_append_iff (p : List α) {a b : List α} : p ++ a < p ++ b ↔ a < b := by
  induction p with
  | nil => rfl
  | cons x p ih => simpa [List.cons_lt_cons_iff] using ih

theorem append_le_append_iff (p : List α) {a b : List α} : p ++ a ≤ p ++ b ↔ a ≤ b := by
  rw [← not_lt, append_lt_append_iff, not_lt]

theorem le_of_isPrefix {p x : List α} (h : p <+: x) : p ≤ x := by
  obtain ⟨t, rfl⟩ := h
  simpa using (append_le_append_iff p).2 (nil_le t)

/-- Below `y` followed by a least element lie exactly the lists up to `y`. -/
theorem lt_append_bot_iff {b : α} (hb : IsBot b) : ∀ x y : List α, x < y ++ [b] ↔ x ≤ y
  | [], [] => by simp
  | a :: x, [] => by
    rw [List.nil_append, List.cons_lt_cons_iff]
    simp only [List.not_lt_nil, and_false, or_false, not_lt.2 (hb a), false_iff]
    exact not_cons_le_nil a x
  | [], c :: y => by simp [nil_le]
  | a :: x, c :: y => by
    rw [List.cons_append, List.cons_lt_cons_iff, cons_le_cons_iff, lt_append_bot_iff hb x y]

/-- A list between `[b]` and a list that starts with `b` starts with `b`. -/
theorem head?_eq_of_le_of_le {b : α} {k x : List α} (h1 : [b] ≤ k) (h2 : k ≤ b :: x) :
    k.head? = some b := by
  cases k with
  | nil => exact absurd h1 (not_cons_le_nil b [])
  | cons c k =>
    rw [cons_le_cons_iff] at h1 h2
    rcases h1 with h1 | ⟨rfl, -⟩
    · rcases h2 with h2 | ⟨rfl, -⟩
      · exact absurd (lt_trans h1 h2) (lt_irrefl _)
      · exact absurd h1 (lt_irrefl _)
    · rfl

/-- Two fronts of one length decide the order, unless they are equal. -/
theorem append_lt_append_of_length_eq : ∀ {p q : List α} (r s : List α), p.length = q.length →
    (p ++ r < q ++ s ↔ p < q ∨ p = q ∧ r < s)
  | [], [], r, s, _ => by simp
  | a :: p, b :: q, r, s, h => by
    rw [List.cons_append, List.cons_append, List.cons_lt_cons_iff, List.cons_lt_cons_iff,
      append_lt_append_of_length_eq r s (by simpa using h)]
    constructor
    · rintro (hab | ⟨rfl, hpq | ⟨rfl, hrs⟩⟩)
      · exact .inl (.inl hab)
      · exact .inl (.inr ⟨rfl, hpq⟩)
      · exact .inr ⟨rfl, hrs⟩
    · rintro ((hab | ⟨rfl, hpq⟩) | ⟨heq, hrs⟩)
      · exact .inl hab
      · exact .inr ⟨rfl, .inl hpq⟩
      · obtain ⟨rfl, rfl⟩ := List.cons_eq_cons.1 heq
        exact .inr ⟨rfl, .inr ⟨rfl, hrs⟩⟩

variable {β : Type*} [LinearOrder β]

/-- A map that is strictly monotone on the elements keeps the order of lists. -/
theorem map_lt_map_iff {f : α → β} {s : Set α} (hf : StrictMonoOn f s) :
    ∀ {l l' : List α}, (∀ x ∈ l, x ∈ s) → (∀ x ∈ l', x ∈ s) → (l.map f < l'.map f ↔ l < l')
  | [], [], _, _ => by simp
  | [], b :: l', _, _ => by simp [List.nil_lt_cons]
  | a :: l, [], _, _ => by simp [List.not_lt_nil]
  | a :: l, b :: l', hl, hl' => by
    have ha : a ∈ s := hl a List.mem_cons_self
    have hb : b ∈ s := hl' b List.mem_cons_self
    rw [List.map_cons, List.map_cons, List.cons_lt_cons_iff, List.cons_lt_cons_iff,
      hf.lt_iff_lt ha hb, hf.injOn.eq_iff ha hb,
      map_lt_map_iff hf (fun x hx => hl x (List.mem_cons_of_mem a hx))
        (fun x hx => hl' x (List.mem_cons_of_mem b hx))]

/-- A strictly antitone map turns the order of lists of one length around. -/
theorem map_lt_map_iff_of_strictAnti {f : α → β} (hf : StrictAnti f) :
    ∀ {l l' : List α}, l.length = l'.length → (l.map f < l'.map f ↔ l' < l)
  | [], [], _ => by simp
  | a :: l, b :: l', h => by
    rw [List.map_cons, List.map_cons, List.cons_lt_cons_iff, List.cons_lt_cons_iff,
      hf.lt_iff_gt, hf.injective.eq_iff, map_lt_map_iff_of_strictAnti hf (by simpa using h)]
    constructor
    · rintro (hab | ⟨rfl, hl⟩)
      · exact .inl hab
      · exact .inr ⟨rfl, hl⟩
    · rintro (hab | ⟨rfl, hl⟩)
      · exact .inl hab
      · exact .inr ⟨rfl, hl⟩

variable [OrderTop α]

/-- Above a run of top elements are exactly its extensions. -/
theorem replicate_top_le_iff : ∀ (k : Nat) (x : List α),
    List.replicate k ⊤ ≤ x ↔ List.replicate k ⊤ <+: x
  | 0, x => by simp [nil_le]
  | k + 1, [] => by
    rw [List.replicate_succ, List.prefix_nil]
    simp only [reduceCtorEq, iff_false]
    exact not_cons_le_nil _ _
  | k + 1, y :: ys => by
    rw [List.replicate_succ, cons_le_cons_iff, List.cons_prefix_cons,
      replicate_top_le_iff k ys]
    simp [not_top_lt]

theorem exists_prefix_ge (k : Nat) (y : List α) :
    ∃ x, List.replicate k ⊤ <+: x ∧ y ≤ x := by
  by_cases h : List.replicate k ⊤ ≤ y
  · exact ⟨y, (replicate_top_le_iff k y).1 h, le_rfl⟩
  · exact ⟨_, List.prefix_refl _, (not_le.1 h).le⟩

variable {b c : α}

theorem le_and_lt_iff_isPrefix (q : List α) (hbc : b ⋖ c) (k : Nat) (x : List α) :
    q ++ b :: List.replicate k ⊤ ≤ x ∧ x < q ++ [c] ↔ q ++ b :: List.replicate k ⊤ <+: x := by
  induction q generalizing x with
  | nil =>
    cases x with
    | nil => simp [not_cons_le_nil]
    | cons y ys =>
      -- below `[c]` is at most `b` in the first place, so the first element is `b`
      have hyc : y :: ys < [c] ↔ y ≤ b := by
        rw [List.cons_lt_cons_iff]
        simp only [List.not_lt_nil, and_false, or_false]
        exact ⟨fun h => not_lt.1 fun hby => hbc.2 hby h, fun h => h.trans_lt hbc.1⟩
      simp only [List.nil_append]
      rw [hyc, cons_le_cons_iff, List.cons_prefix_cons, replicate_top_le_iff]
      constructor
      · rintro ⟨hby | hby, hyb⟩
        · exact absurd hyb (not_le.2 hby)
        · exact hby
      · rintro ⟨rfl, h⟩
        exact ⟨Or.inr ⟨rfl, h⟩, le_rfl⟩
  | cons a q ih =>
    cases x with
    | nil => simp [not_cons_le_nil]
    | cons y ys =>
      simp only [List.cons_append, cons_le_cons_iff, List.cons_lt_cons_iff,
        List.cons_prefix_cons, ← ih ys]
      rcases lt_trichotomy a y with h | rfl | h
      · simp [h, h.ne, h.ne', h.not_gt]
      · simp
      · simp [h, h.ne, h.ne', h.not_gt]

theorem lt_of_isPrefix (q : List α) (hbc : b ⋖ c) (k : Nat) {x : List α}
    (hx : q ++ b :: List.replicate k ⊤ <+: x) : x < q ++ [c] :=
  ((le_and_lt_iff_isPrefix q hbc k x).2 hx).2

/-- `q ++ [c]` is the least list above every extension of `q ++ b :: ⊤ … ⊤`. -/
theorem le_of_forall_prefix_lt (q : List α) (hbc : b ⋖ c) (k : Nat) {y : List α}
    (hy : ∀ x, q ++ b :: List.replicate k ⊤ <+: x → x < y) : q ++ [c] ≤ y := by
  by_contra hlt
  rw [not_le] at hlt
  by_cases hp : q ++ b :: List.replicate k ⊤ ≤ y
  · exact lt_irrefl y (hy y ((le_and_lt_iff_isPrefix q hbc k y).1 ⟨hp, hlt⟩))
  · exact hp (hy _ (List.prefix_refl _)).le

end Order

section Bytes

scoped instance instLinearOrderByte : LinearOrder UInt8 where
  le_refl := UInt8.le_refl
  le_trans _ _ _ := UInt8.le_trans
  le_antisymm _ _ := UInt8.le_antisymm
  le_total := UInt8.le_total
  lt_iff_le_not_ge a b := Std.LawfulOrderLT.lt_iff a b
  toDecidableLE := inferInstance
  toDecidableEq := inferInstance
  toDecidableLT := inferInstance

scoped instance instOrderTopByte : OrderTop UInt8 where
  top := 255
  le_top b := UInt8.le_iff_toNat_le.2 (by simpa using Nat.le_of_lt_succ b.toNat_lt)

theorem isBot_zero : IsBot (0 : UInt8) := fun b => UInt8.le_iff_toNat_le.2 (by simp)

theorem strictMonoOn_ofNat : StrictMonoOn UInt8.ofNat {n | n < 256} := by
  intro x hx y hy hxy
  rw [UInt8.lt_iff_toNat_lt, UInt8.toNat_ofNat', UInt8.toNat_ofNat', Nat.mod_eq_of_lt hx,
    Nat.mod_eq_of_lt hy]
  exact hxy

theorem strictAnti_not : StrictAnti fun b : UInt8 => ~~~b := by
  intro x y hxy
  have hx := UInt8.lt_iff_toNat_lt.1 hxy
  have hy := y.toNat_lt
  rw [UInt8.lt_iff_toNat_lt, UInt8.toNat_not, UInt8.toNat_not]
  simp only [UInt8.size] at *
  omega

theorem covBy_add_one {b : UInt8} (h : b ≠ 255) : b ⋖ b + 1 := by
  have hb : b.toNat < 255 := by
    have := b.toNat_lt
    have : b.toNat ≠ 255 := fun h' => h (UInt8.toNat_inj.1 h')
    omega
  have hsucc : (b + 1).toNat = b.toNat + 1 := by
    rw [UInt8.toNat_add, UInt8.toNat_one, Nat.mod_eq_of_lt (by omega)]
  refine ⟨UInt8.lt_iff_toNat_lt.2 (by omega), fun d hbd hdb => ?_⟩
  have h1 := UInt8.lt_iff_toNat_lt.1 hbd
  have h2 := UInt8.lt_iff_toNat_lt.1 hdb
  omega

end Bytes

end Barkis.Lex
