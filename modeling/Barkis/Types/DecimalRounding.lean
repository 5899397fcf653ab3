import Barkis.Types.Decimal
import Barkis.Lib.Rounding

/-!
# What the rounding modes of `Dec` compute

The chop functions of `types/decimal.go` against the roundings of `Barkis.Rounding`, on the exact
value `d / 10 ^ 18` of their argument: `chopPrecisionAndRound` is banker's rounding for either
sign, `chopPrecisionAndTruncate` truncation toward zero, and `chopPrecisionAndRoundUp` rounding up
of a non-negative argument.

All values below are in units of `10⁻¹⁸`, the embedded integers. `Mul`, `MulTruncate` and
`QuoTruncate` round the exact product or quotient (`dec_rounding_modes`). `Quo` and `QuoRoundUp`
round a quotient that `big.Int.Quo` has already truncated to 36 decimals, and rounding twice is
not rounding once: `Quo` can round an exact quotient just above a tie down to the even neighbour
(`quo_rounds_truncated_tie`), and `QuoRoundUp` can return less than the exact quotient
(`quoRoundUp_below_exact`).
-/

namespace Barkis.Dec

open Rounding

theorem precisionReuse_eq_natCast : precisionReuse = ((10 ^ 18 : ℕ) : ℤ) := by
  norm_num [precisionReuse, precision]

theorem precisionReuse_cast : (precisionReuse : ℚ) = ((10 ^ 18 : ℕ) : ℚ) := by
  rw [precisionReuse_eq_natCast, Int.cast_natCast]

/-! ## The chop functions -/

theorem chopNonNegAndRound_eq {d : Int} (h : 0 ≤ d) :
    chopNonNegAndRound d = roundHalfEven ((d : ℚ) / precisionReuse) := by
  have hP : precisionReuse = 1000000000000000000 := by decide
  have h5 : fivePrecision = 500000000000000000 := by decide
  rw [precisionReuse_cast, roundHalfEven_intCast_div d (by norm_num)]
  -- on a non-negative argument `tdiv` and `tmod` are the floor division of the library
  simp only [chopNonNegAndRound, Int.tdiv_eq_ediv_of_nonneg h, Int.tmod_eq_emod_of_nonneg h, hP, h5]
  norm_num
  split_ifs <;> omega

/-- `chopPrecisionAndRound` is banker's rounding of `d / 10 ^ 18`. -/
theorem chopPrecisionAndRound_eq (d : Int) :
    chopPrecisionAndRound d = roundHalfEven ((d : ℚ) / precisionReuse) := by
  unfold chopPrecisionAndRound
  split_ifs with h
  · rw [chopNonNegAndRound_eq (by omega), ← roundHalfEven_neg, Int.cast_neg, neg_div, neg_neg]
  · exact chopNonNegAndRound_eq (by omega)

/-- `chopPrecisionAndTruncate` truncates `d / 10 ^ 18` toward zero. -/
theorem chopPrecisionAndTruncate_eq (d : Int) :
    chopPrecisionAndTruncate d = truncate ((d : ℚ) / precisionReuse) :=
  (truncate_intCast_div d precisionReuse).symm

/-- Banker's rounding of `d ≥ 0` is at most `d / 10 ^ 18 + 1 / 2`. -/
theorem chopNonNegAndRound_le_half {d : Int} (h : 0 ≤ d) :
    2 * precisionReuse * chopNonNegAndRound d ≤ 2 * d + precisionReuse := by
  have hP : precisionReuse = 1000000000000000000 := by decide
  have h5 : fivePrecision = 500000000000000000 := by decide
  simp only [chopNonNegAndRound, Int.tdiv_eq_ediv_of_nonneg h, Int.tmod_eq_emod_of_nonneg h, hP, h5]
  split_ifs <;> omega

/-! ## The operations -/

theorem quoRaw_of_ne {d d2 : Dec} (h : d2.int ≠ 0) :
    quoRaw d d2 = some (truncate (((d.int * precisionReuse * precisionReuse : ℤ) : ℚ) / d2.int)) := by
  rw [quoRaw, if_neg h, truncate_intCast_div]

/-- `Mul` and `MulTruncate` round the exact product, `QuoTruncate` truncates the exact quotient,
and `Quo` rounds the quotient truncated to 36 decimals; each panics when its result needs more
than `255 + 60` bits. -/
theorem dec_rounding_modes (a b : Dec) :
    a.mul b = checked (roundHalfEven (((a.int * b.int : ℤ) : ℚ) / precisionReuse)) ∧
      a.mulTruncate b = checked (truncate (((a.int * b.int : ℤ) : ℚ) / precisionReuse)) ∧
      (b.int ≠ 0 →
        a.quoTruncate b = checked (truncate (((a.int * precisionReuse : ℤ) : ℚ) / b.int))) ∧
      (b.int ≠ 0 →
        a.quo b = checked (roundHalfEven
          (truncate (((a.int * precisionReuse * precisionReuse : ℤ) : ℚ) / b.int) /
            precisionReuse))) := by
  refine ⟨by rw [mul, chopPrecisionAndRound_eq], by rw [mulTruncate, chopPrecisionAndTruncate_eq],
    fun hb => ?_, fun hb => ?_⟩
  · -- truncating at 36 decimals and then at 18 truncates at 18
    have hq : ((a.int * precisionReuse * precisionReuse : ℤ) : ℚ) / b.int / precisionReuse =
        ((a.int * precisionReuse : ℤ) : ℚ) / b.int := by
      have : (precisionReuse : ℚ) ≠ 0 := by exact_mod_cast precisionReuse_pos.ne'
      push_cast
      field_simp
    rw [quoTruncate, quoRaw_of_ne hb, Option.bind_eq_bind, Option.bind_some,
      chopPrecisionAndTruncate_eq, precisionReuse_cast, truncate_truncate_div,
      ← precisionReuse_cast, hq]
  · rw [quo, quoRaw_of_ne hb, Option.bind_eq_bind, Option.bind_some, chopPrecisionAndRound_eq]

theorem dec_rounding_modes_one :
    oneDec.int ≠ 0 ∧ (oneDec.mul oneDec = checked
      (roundHalfEven (((oneDec.int * oneDec.int : ℤ) : ℚ) / precisionReuse)) ∧
      oneDec.mulTruncate oneDec = checked
        (truncate (((oneDec.int * oneDec.int : ℤ) : ℚ) / precisionReuse)) ∧
      (oneDec.int ≠ 0 → oneDec.quoTruncate oneDec =
        checked (truncate (((oneDec.int * precisionReuse : ℤ) : ℚ) / oneDec.int))) ∧
      (oneDec.int ≠ 0 → oneDec.quo oneDec = checked (roundHalfEven
        (truncate (((oneDec.int * precisionReuse * precisionReuse : ℤ) : ℚ) / oneDec.int) /
          precisionReuse)))) :=
  ⟨by decide, dec_rounding_modes oneDec oneDec⟩

/-- `1.999999999999999999`: `10⁻¹⁸` divided by it is `5.0000000000000000025 · 10⁻¹⁹`. -/
def tieDivisor : Dec := ⟨2 * precisionReuse - 1, natAbs_lt_of_lt_maxBitLen (by decide)⟩

/-- `Quo` gives `0` for `10⁻¹⁸ / 1.999999999999999999`, whose exact quotient is past the tie
`5 · 10⁻¹⁹` and rounds to `10⁻¹⁸`. -/
theorem quo_rounds_truncated_tie :
    smallestDec.quo tieDivisor = some zeroDec ∧
      roundHalfEven (((smallestDec.int * precisionReuse : ℤ) : ℚ) / tieDivisor.int) = 1 := by
  refine ⟨by decide, ?_⟩
  have h : (((smallestDec.int * precisionReuse : ℤ) : ℚ) / tieDivisor.int) =
      ((10 ^ 18 : ℤ) : ℚ) / ((2 * 10 ^ 18 - 1 : ℕ) : ℚ) := by
    norm_num [smallestDec, tieDivisor, precisionReuse, precision]
  rw [h, roundHalfEven_intCast_div _ (by norm_num)]
  decide

/-- `2 · 10⁻¹⁸ / 1.999999999999999999` is `1.0000000000000000005 · 10⁻¹⁸`; `QuoRoundUp` returns
`10⁻¹⁸`, below it. -/
theorem quoRoundUp_below_exact :
    (⟨2, natAbs_lt_of_lt_maxBitLen (by decide)⟩ : Dec).quoRoundUp tieDivisor = some smallestDec ∧
      (smallestDec.int : ℚ) < ((2 * precisionReuse : ℤ) : ℚ) / tieDivisor.int := by
  refine ⟨by decide, ?_⟩
  norm_num [smallestDec, tieDivisor, precisionReuse, precision]

end Barkis.Dec
