import Mathlib.Data.Rat.Floor

/-!
# Rounding a rational to an integer

Fixed-point arithmetic computes a quotient by integer division and then rounds it. This module
states the roundings on the exact rational and computes each by `Int` division:

* `truncate q`, toward zero: `Int.tdiv` computes it (`truncate_intCast_div`), and truncating a
  truncated value once more loses nothing (`truncate_truncate_div`);
* `roundHalfEven q`, to the nearest integer with a tie going to the even one: the remainder
  against half the divisor decides it (`roundHalfEven_intCast_div`); it is odd in `q`
  (`roundHalfEven_neg`) and within `1 / 2` of `q` (`abs_sub_roundHalfEven_le`).
-/

namespace Barkis.Rounding

/-- Rounding toward zero. -/
def truncate (q : ℚ) : ℤ := if 0 ≤ q then ⌊q⌋ else ⌈q⌉

/-- Rounding to the nearest integer, a tie going to the even neighbour. -/
def roundHalfEven (q : ℚ) : ℤ :=
  if Int.fract q < 1 / 2 then ⌊q⌋
  else if 1 / 2 < Int.fract q then ⌊q⌋ + 1
  else if ⌊q⌋ % 2 = 0 then ⌊q⌋ else ⌊q⌋ + 1

/-! ## Toward zero -/

theorem truncate_of_nonneg {q : ℚ} (h : 0 ≤ q) : truncate q = ⌊q⌋ := if_pos h

theorem truncate_neg (q : ℚ) : truncate (-q) = -truncate q := by
  rcases lt_trichotomy q 0 with h | rfl | h
  · rw [truncate, if_pos (by linarith), truncate, if_neg (by linarith), Int.floor_neg]
  · simp [truncate]
  · rw [truncate, if_neg (by linarith), truncate, if_pos h.le, Int.ceil_neg]

theorem truncate_natCast_div (n d : ℕ) : truncate ((n : ℚ) / d) = ((n / d : ℕ) : ℤ) := by
  rw [truncate_of_nonneg (by positivity), show ((n : ℚ)) = ((n : ℤ) : ℚ) from rfl,
    Rat.floor_intCast_div_natCast]
  rfl

/-- `Int.tdiv` is the quotient truncated toward zero, whatever the signs. -/
theorem truncate_intCast_div (n d : ℤ) : truncate ((n : ℚ) / d) = n.tdiv d := by
  obtain ⟨a, rfl | rfl⟩ := Int.eq_nat_or_neg n <;> obtain ⟨b, rfl | rfl⟩ := Int.eq_nat_or_neg d
  · rw [← Int.ofNat_tdiv, ← truncate_natCast_div]
    rfl
  · rw [Int.tdiv_neg, ← Int.ofNat_tdiv, ← truncate_natCast_div, ← truncate_neg]
    push_cast
    rw [div_neg]
  · rw [Int.neg_tdiv, ← Int.ofNat_tdiv, ← truncate_natCast_div, ← truncate_neg]
    push_cast
    rw [neg_div]
  · rw [Int.neg_tdiv, Int.tdiv_neg, neg_neg, ← Int.ofNat_tdiv, ← truncate_natCast_div]
    push_cast
    rw [neg_div_neg_eq]

theorem truncate_truncate_div_of_nonneg {x : ℚ} (hx : 0 ≤ x) (N : ℕ) :
    truncate ((truncate x : ℚ) / N) = truncate (x / N) := by
  have hf : 0 ≤ ⌊x⌋ := Int.floor_nonneg.2 hx
  rw [truncate_of_nonneg hx, truncate_of_nonneg (by positivity), truncate_of_nonneg (by positivity),
    Rat.floor_intCast_div_natCast, Int.floor_div_natCast]

/-- Truncating to a multiple of `1` and then dividing by `N` truncates the quotient. -/
theorem truncate_truncate_div (x : ℚ) (N : ℕ) :
    truncate ((truncate x : ℚ) / N) = truncate (x / N) := by
  rcases le_or_gt 0 x with hx | hx
  · exact truncate_truncate_div_of_nonneg hx N
  · have h := truncate_truncate_div_of_nonneg (neg_nonneg.2 hx.le) N
    rw [truncate_neg, Int.cast_neg, neg_div, truncate_neg, neg_div, truncate_neg] at h
    exact neg_inj.1 h

/-! ## To the nearest, ties to even -/

/-- The two roundings of `q = f + r` that `roundHalfEven` chooses from, by `r` against `1 / 2`. -/
theorem roundHalfEven_eq (f : ℤ) {r : ℚ} (h0 : 0 ≤ r) (h1 : r < 1) :
    roundHalfEven (f + r) =
      if r < 1 / 2 then f else if 1 / 2 < r then f + 1 else if f % 2 = 0 then f else f + 1 := by
  have hfl : ⌊(f : ℚ) + r⌋ = f := by
    rw [Int.floor_eq_iff]
    constructor <;> linarith
  have hfr : Int.fract ((f : ℚ) + r) = r := by
    rw [Int.fract, hfl]
    ring
  rw [roundHalfEven, hfl, hfr]

theorem roundHalfEven_neg (q : ℚ) : roundHalfEven (-q) = -roundHalfEven q := by
  have hq : q = ⌊q⌋ + Int.fract q := (Int.floor_add_fract q).symm
  have h0 := Int.fract_nonneg q
  have h1 := Int.fract_lt_one q
  set f := ⌊q⌋
  set r := Int.fract q
  rcases h0.eq_or_lt with hr | hr
  · -- an integer: `-q = -f + 0`
    have hn : -q = ((-f : ℤ) : ℚ) + 0 := by rw [hq, ← hr]; push_cast; ring
    rw [hn, hq, ← hr, roundHalfEven_eq _ le_rfl one_pos, roundHalfEven_eq _ le_rfl one_pos]
    norm_num
  · -- otherwise `-q = (-f - 1) + (1 - r)`
    have hn : -q = ((-f - 1 : ℤ) : ℚ) + (1 - r) := by rw [hq]; push_cast; ring
    rw [hn, hq, roundHalfEven_eq _ (by linarith) (by linarith), roundHalfEven_eq _ h0 h1]
    rcases lt_trichotomy r (1 / 2) with h | h | h
    · rw [if_neg (by linarith), if_pos (by linarith), if_pos h]
      ring
    · have e1 : ¬(1 - r < 1 / 2) := by linarith
      have e2 : ¬(1 / 2 < 1 - r) := by linarith
      have e3 : ¬(r < 1 / 2) := by linarith
      have e4 : ¬(1 / 2 < r) := by linarith
      rw [if_neg e1, if_neg e2, if_neg e3, if_neg e4]
      -- a tie: `-f - 1` is even exactly when `f` is odd
      by_cases hf : f % 2 = 0
      · have hf' : ¬(-f - 1) % 2 = 0 := by omega
        rw [if_neg hf', if_pos hf]
        ring
      · have hf' : (-f - 1) % 2 = 0 := by omega
        rw [if_pos hf', if_neg hf]
        ring
    · rw [if_pos (by linarith), if_neg (by linarith), if_pos h]
      ring

/-- The rounding is within a half of the value. -/
theorem abs_sub_roundHalfEven_le (q : ℚ) : |q - roundHalfEven q| ≤ 1 / 2 := by
  have hq : q = ⌊q⌋ + Int.fract q := (Int.floor_add_fract q).symm
  have h0 := Int.fract_nonneg q
  have h1 := Int.fract_lt_one q
  rw [hq, roundHalfEven_eq _ h0 h1, abs_le]
  split_ifs <;> push_cast <;> constructor <;> linarith

/-- For a quotient: the floor, or one more, by twice the remainder against the divisor. -/
theorem roundHalfEven_intCast_div (n : ℤ) {d : ℕ} (hd : 0 < d) :
    roundHalfEven ((n : ℚ) / d) =
      if 2 * (n % d) < d then n / d
      else if d < 2 * (n % d) then n / d + 1
      else if n / d % 2 = 0 then n / d else n / d + 1 := by
  have hdq : (0 : ℚ) < d := by exact_mod_cast hd
  have hq : (n : ℚ) / d = ((n / d : ℤ) : ℚ) + ((n % d : ℤ) : ℚ) / d := by
    rw [← Rat.floor_intCast_div_natCast, ← Int.fract_div_intCast_eq_div_intCast_mod]
    exact (Int.floor_add_fract _).symm
  have hm0 : (0 : ℚ) ≤ ((n % d : ℤ) : ℚ) / d := by
    have : 0 ≤ n % d := Int.emod_nonneg n (by omega)
    positivity
  have hm1 : ((n % d : ℤ) : ℚ) / d < 1 := by
    rw [div_lt_one hdq]
    exact_mod_cast Int.emod_lt_of_pos n (by omega)
  have hhalf : ∀ m : ℤ, ((m : ℚ) / d < 1 / 2 ↔ 2 * m < d) ∧ (1 / 2 < (m : ℚ) / d ↔ d < 2 * m) := by
    intro m
    have e1 : (m : ℚ) / d < 1 / 2 ↔ ((2 * m : ℤ) : ℚ) < ((d : ℤ) : ℚ) := by
      rw [div_lt_iff₀ hdq]
      push_cast
      constructor <;> intro h <;> linarith
    have e2 : 1 / 2 < (m : ℚ) / d ↔ ((d : ℤ) : ℚ) < ((2 * m : ℤ) : ℚ) := by
      rw [lt_div_iff₀ hdq]
      push_cast
      constructor <;> intro h <;> linarith
    rw [e1, e2, Int.cast_lt, Int.cast_lt]
    exact ⟨Iff.rfl, Iff.rfl⟩
  rw [hq, roundHalfEven_eq _ hm0 hm1]
  simp only [(hhalf _).1, (hhalf _).2]

end Barkis.Rounding
