import Mathlib.Tactic.Ring
import Barkis.Lib.Lex

/-!
# Fixed-width numerals

The `w` digits of `n` in base `b`, most significant first: a big-endian integer of `w` bytes, or a
zero-padded decimal field. Below `b ^ w`, numerals compare as their values (`fixedDigits_lt_iff`),
so they make sortable keys, and reading the digits back gives the value (`foldl_fixedDigits`).
-/

namespace Barkis.FixedWidth

/-- The digits `n / b ^ i % b` for `i = w - 1, …, 0`. -/
def fixedDigits (b w n : Nat) : List Nat := (List.range w).reverse.map fun i => n / b ^ i % b

variable {b : Nat}

@[simp] theorem length_fixedDigits (w n : Nat) : (fixedDigits b w n).length = w := by
  simp [fixedDigits]

/-- One more digit is the last digit after the numeral of `n / b`. -/
theorem fixedDigits_succ (w n : Nat) :
    fixedDigits b (w + 1) n = fixedDigits b w (n / b) ++ [n % b] := by
  have hdigit : ∀ i, n / b ^ (i + 1) % b = n / b / b ^ i % b := by
    intro i
    rw [Nat.div_div_eq_div_mul, pow_succ, Nat.mul_comm]
  simp only [fixedDigits, List.range_succ_eq_map, List.reverse_cons, List.map_append,
    List.map_reverse, List.map_map, List.map_cons, List.map_nil, pow_zero, Nat.div_one]
  congr 2
  exact List.map_congr_left fun i _ => hdigit i

/-- The first digit is the one of `b ^ w`. -/
theorem fixedDigits_succ_cons (w n : Nat) :
    fixedDigits b (w + 1) n = n / b ^ w % b :: fixedDigits b w n := by
  simp [fixedDigits, List.range_succ]

@[simp] theorem fixedDigits_zero (w : Nat) : fixedDigits b w 0 = List.replicate w 0 := by
  simp [fixedDigits]

theorem fixedDigits_lt (hb : 0 < b) (w n : Nat) : ∀ d ∈ fixedDigits b w n, d < b := by
  intro d hd
  obtain ⟨i, -, rfl⟩ := List.mem_map.1 hd
  exact Nat.mod_lt _ hb

/-- Numbers compare as their quotients by `b`, then as their last digits. -/
theorem lt_iff_div_lt {n m : Nat} :
    n < m ↔ n / b < m / b ∨ n / b = m / b ∧ n % b < m % b := by
  have hn := Nat.div_add_mod n b
  have hm := Nat.div_add_mod m b
  constructor
  · intro h
    rcases lt_trichotomy (n / b) (m / b) with hq | hq | hq
    · exact .inl hq
    · refine .inr ⟨hq, ?_⟩
      rw [hq] at hn
      omega
    · exact absurd (Nat.div_le_div_right h.le : n / b ≤ m / b) (not_le.2 hq)
  · rintro (hq | ⟨hq, hr⟩)
    · exact Nat.lt_of_div_lt_div hq
    · rw [hq] at hn
      omega

theorem fixedDigits_lt_iff (hb : 0 < b) :
    ∀ (w : Nat) {n m : Nat}, n < b ^ w → m < b ^ w →
      (fixedDigits b w n < fixedDigits b w m ↔ n < m)
  | 0, n, m, hn, hm => by
    have hn0 : n = 0 := by simpa using hn
    have hm0 : m = 0 := by simpa using hm
    subst hn0 hm0
    simp [fixedDigits]
  | w + 1, n, m, hn, hm => by
    have hq : ∀ {x}, x < b ^ (w + 1) → x / b < b ^ w := fun hx =>
      Nat.div_lt_of_lt_mul (by rwa [Nat.mul_comm, ← pow_succ])
    -- below `b ^ w` the numerals of the quotients are ordered, hence injective
    have hmono : StrictMonoOn (fixedDigits b w) {x | x < b ^ w} :=
      fun x hx y hy h => (fixedDigits_lt_iff hb w hx hy).2 h
    rw [fixedDigits_succ, fixedDigits_succ, Lex.append_lt_append_of_length_eq _ _ (by simp),
      fixedDigits_lt_iff hb w (hq hn) (hq hm), hmono.injOn.eq_iff (hq hn) (hq hm),
      @lt_iff_div_lt b n m, List.cons_lt_cons_iff]
    simp

/-- Reading the digits from the left onto `a` shifts `a` past them and adds the value. -/
theorem foldl_fixedDigits : ∀ (w n a : Nat),
    (fixedDigits b w n).foldl (fun acc d => b * acc + d) a = a * b ^ w + n % b ^ w
  | 0, n, a => by simp [fixedDigits, Nat.mod_one]
  | w + 1, n, a => by
    rw [fixedDigits_succ, List.foldl_append, foldl_fixedDigits w, List.foldl_cons, List.foldl_nil,
      pow_succ, Nat.mul_comm (b ^ w) b, Nat.mod_mul, Nat.mul_add, ← Nat.mul_assoc]
    ring

/-- Reading digits onto `a` never goes below `a`. -/
theorem le_foldl (hb : 0 < b) : ∀ (ds : List Nat) (a : Nat),
    a ≤ ds.foldl (fun acc d => b * acc + d) a
  | [], _ => le_rfl
  | d :: ds, a => by
    rw [List.foldl_cons]
    calc a ≤ b * a + d := Nat.le_add_right_of_le (Nat.le_mul_of_pos_left a hb)
      _ ≤ _ := le_foldl hb ds (b * a + d)

end Barkis.FixedWidth
