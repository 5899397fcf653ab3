import Barkis.Types.Int

/-!
# `sdk.Dec`: 18-decimal fixed point

`types/decimal.go`. A `Dec` embeds a `big.Int` holding the value times `10 ^ Precision`.
Arithmetic panics once a result needs more than `255 + DecimalPrecisionBits` bits, so every `Dec`
stays below `2 ^ 315` in absolute value, and `Dec` carries that bound. Products and quotients
chop the 18 extra digits by banker's rounding (`chopPrecisionAndRound`), toward zero
(`chopPrecisionAndTruncate`) or upward (`chopPrecisionAndRoundUp`). A panic is `none`.
-/

namespace Barkis

/-- `DecimalPrecisionBits`. -/
def decimalPrecisionBits : Nat := 60

/-- `Dec`: the embedded `big.Int`, the value times `10 ^ 18`, within `255 + 60` bits. -/
structure Dec where
  int : Int
  bound : int.natAbs < 2 ^ (maxBitLen + decimalPrecisionBits)

namespace Dec

theorem ext_int {a b : Dec} (h : a.int = b.int) : a = b := by
  cases a; cases b; simp_all

instance : DecidableEq Dec := fun a b =>
  if h : a.int = b.int then isTrue (ext_int h) else isFalse (by rintro rfl; exact h rfl)

/-- `Precision`. -/
def precision : Nat := 18

/-- `precisionReuse = 10 ^ Precision`. -/
def precisionReuse : Int := 10 ^ precision

/-- `fivePrecision = precisionReuse / 2`. -/
def fivePrecision : Int := precisionReuse.tdiv 2

/-- The check `BitLen() > 255 + DecimalPrecisionBits` after an arithmetic step: the result, or the
panic `"Int overflow"`. -/
def checked (i : Int) : Option Dec :=
  if h : overflowsBits (maxBitLen + decimalPrecisionBits) i then none
  else some ⟨i, (not_overflowsBits_iff _ _).1 (by simpa using h)⟩

/-- An integer within `maxBitLen` bits fits a `Dec`. Literal decimals prove their bound through
this lemma, which compares them with `2 ^ 255` rather than evaluating `2 ^ 315`. -/
theorem natAbs_lt_of_lt_maxBitLen {i : Int} (h : i.natAbs < 2 ^ maxBitLen) :
    i.natAbs < 2 ^ (maxBitLen + decimalPrecisionBits) :=
  h.trans_le (Nat.pow_le_pow_right (by norm_num) (Nat.le_add_right _ _))

/-- `ZeroDec`. -/
def zeroDec : Dec := ⟨0, natAbs_lt_of_lt_maxBitLen (by decide)⟩

/-- `OneDec`. -/
def oneDec : Dec := ⟨precisionReuse, natAbs_lt_of_lt_maxBitLen (by decide)⟩

/-- `SmallestDec`. -/
def smallestDec : Dec := ⟨1, natAbs_lt_of_lt_maxBitLen (by decide)⟩

theorem precisionReuse_lt : precisionReuse.natAbs < 2 ^ decimalPrecisionBits := by decide

/-- `NewDecFromInt`, also `Int.ToDec`: an `Int` times `10 ^ 18` always fits. -/
def newDecFromInt (i : SdkInt) : Dec :=
  ⟨i.i * precisionReuse, by
    rw [Int.natAbs_mul, pow_add]
    exact Nat.mul_lt_mul'' i.bound precisionReuse_lt⟩

/-- An `int64` times `10 ^ 18` always fits. -/
theorem int64_mul_precisionReuse_lt (i : Int64) :
    (i.toInt * precisionReuse).natAbs < 2 ^ (maxBitLen + decimalPrecisionBits) := by
  have h1 := Int64.le_toInt i
  have h2 := Int64.toInt_lt i
  rw [Int.natAbs_mul]
  calc i.toInt.natAbs * precisionReuse.natAbs ≤ 2 ^ 63 * 2 ^ decimalPrecisionBits :=
        Nat.mul_le_mul (by omega) precisionReuse_lt.le
    _ < 2 ^ (maxBitLen + decimalPrecisionBits) := by
        rw [← pow_add]
        exact Nat.pow_lt_pow_right (by norm_num) (by simp [maxBitLen, decimalPrecisionBits])

/-- `NewDec`. -/
def newDec (i : Int64) : Dec := ⟨i.toInt * precisionReuse, int64_mul_precisionReuse_lt i⟩

/-- `Dec.IsZero`. -/
def isZero (d : Dec) : Bool := d.int == 0

/-- `Dec.IsNegative`. -/
def isNegative (d : Dec) : Bool := decide (d.int < 0)

/-- `Dec.IsPositive`. -/
def isPositive (d : Dec) : Bool := decide (0 < d.int)

instance : LT Dec := ⟨fun a b => a.int < b.int⟩

instance : LE Dec := ⟨fun a b => a.int ≤ b.int⟩

instance (a b : Dec) : Decidable (a < b) := inferInstanceAs (Decidable (a.int < b.int))

instance (a b : Dec) : Decidable (a ≤ b) := inferInstanceAs (Decidable (a.int ≤ b.int))

/-- `Dec.Neg`. -/
def neg (d : Dec) : Dec := ⟨-d.int, by simpa using d.bound⟩

/-- Banker's rounding of a non-negative `d`, divided by `10 ^ 18`. -/
def chopNonNegAndRound (d : Int) : Int :=
  let quo := d.tdiv precisionReuse
  let rem := d.tmod precisionReuse
  if rem = 0 then quo
  else if rem < fivePrecision then quo
  else if fivePrecision < rem then quo + 1
  else if quo % 2 = 0 then quo else quo + 1

/-- `chopPrecisionAndRound`: a negative argument is rounded as its absolute value. -/
def chopPrecisionAndRound (d : Int) : Int :=
  if d < 0 then -chopNonNegAndRound (-d) else chopNonNegAndRound d

/-- `chopPrecisionAndTruncate`. -/
def chopPrecisionAndTruncate (d : Int) : Int := d.tdiv precisionReuse

/-- `chopPrecisionAndRoundUp`: a negative argument is truncated as its absolute value. -/
def chopPrecisionAndRoundUp (d : Int) : Int :=
  if d < 0 then -chopPrecisionAndTruncate (-d)
  else if d.tmod precisionReuse = 0 then d.tdiv precisionReuse else d.tdiv precisionReuse + 1

/-- `Dec.Add`. -/
def add (d d2 : Dec) : Option Dec := checked (d.int + d2.int)

/-- `Dec.Sub`. -/
def sub (d d2 : Dec) : Option Dec := checked (d.int - d2.int)

/-- `Dec.Mul`. -/
def mul (d d2 : Dec) : Option Dec := checked (chopPrecisionAndRound (d.int * d2.int))

/-- `Dec.MulTruncate`. -/
def mulTruncate (d d2 : Dec) : Option Dec := checked (chopPrecisionAndTruncate (d.int * d2.int))

/-- `Dec.MulInt`. -/
def mulInt (d : Dec) (i : SdkInt) : Option Dec := checked (d.int * i.i)

/-- The doubly scaled truncated quotient the three `Quo` variants start from; `big.Int.Quo`
panics on a zero divisor. -/
def quoRaw (d d2 : Dec) : Option Int :=
  if d2.int = 0 then none else some ((d.int * precisionReuse * precisionReuse).tdiv d2.int)

/-- `Dec.Quo`. -/
def quo (d d2 : Dec) : Option Dec := quoRaw d d2 >>= fun q => checked (chopPrecisionAndRound q)

/-- `Dec.QuoTruncate`. -/
def quoTruncate (d d2 : Dec) : Option Dec :=
  quoRaw d d2 >>= fun q => checked (chopPrecisionAndTruncate q)

/-- `Dec.QuoRoundUp`. -/
def quoRoundUp (d d2 : Dec) : Option Dec :=
  quoRaw d d2 >>= fun q => checked (chopPrecisionAndRoundUp q)

/-- `Dec.QuoInt`: no overflow check, the quotient being no larger. -/
def quoInt (d : Dec) (i : SdkInt) : Option Dec :=
  if i.i = 0 then none else checked (d.int.tdiv i.i)

/-- `Dec.TruncateInt`. -/
def truncateInt (d : Dec) : Option SdkInt :=
  SdkInt.newIntFromBigInt (chopPrecisionAndTruncate d.int)

/-- `Dec.RoundInt`: banker's rounding to an integer, which panics past 255 bits. -/
def roundInt (d : Dec) : Option SdkInt := SdkInt.newIntFromBigInt (chopPrecisionAndRound d.int)

/-- `Dec.MulInt64`. -/
def mulInt64 (d : Dec) (i : Int64) : Option Dec := checked (d.int * i.toInt)

/-- `Dec.RoundInt64`: banker's rounding to an integer, which panics outside the `int64` range. -/
def roundInt64 (d : Dec) : Option Int :=
  let chopped := chopPrecisionAndRound d.int
  if -2 ^ 63 ≤ chopped ∧ chopped < 2 ^ 63 then some chopped else none

/-- `MinDec`. -/
def minDec (d1 d2 : Dec) : Dec := if d1 < d2 then d1 else d2

theorem checked_eq_some {i : Int} {r : Dec} :
    checked i = some r ↔ r.int = i ∧ i.natAbs < 2 ^ (maxBitLen + decimalPrecisionBits) := by
  unfold checked
  split
  · rename_i h
    have := (overflowsBits_iff _ _).1 h
    simp only [reduceCtorEq, false_iff, not_and, not_lt]
    exact fun _ => this
  · rename_i h
    have hb := (not_overflowsBits_iff _ _).1 (by simpa using h)
    constructor
    · rintro ⟨⟩; exact ⟨rfl, hb⟩
    · rintro ⟨hr, -⟩; exact congrArg some (ext_int hr.symm)

theorem checked_eq_none {i : Int} :
    checked i = none ↔ 2 ^ (maxBitLen + decimalPrecisionBits) ≤ i.natAbs := by
  unfold checked
  split
  · rename_i h
    simpa using (overflowsBits_iff _ _).1 h
  · rename_i h
    have hb := (not_overflowsBits_iff _ _).1 (by simpa using h)
    simp only [reduceCtorEq, false_iff, not_le]
    exact hb

theorem add_eq_some {d d2 r : Dec} : add d d2 = some r ↔
    r.int = d.int + d2.int ∧ (d.int + d2.int).natAbs < 2 ^ (maxBitLen + decimalPrecisionBits) :=
  checked_eq_some

theorem add_eq_none {d d2 : Dec} :
    add d d2 = none ↔ 2 ^ (maxBitLen + decimalPrecisionBits) ≤ (d.int + d2.int).natAbs :=
  checked_eq_none

theorem sub_eq_some {d d2 r : Dec} : sub d d2 = some r ↔
    r.int = d.int - d2.int ∧ (d.int - d2.int).natAbs < 2 ^ (maxBitLen + decimalPrecisionBits) :=
  checked_eq_some

@[simp] theorem isZero_iff (d : Dec) : d.isZero = true ↔ d.int = 0 := by simp [isZero]

@[simp] theorem isNegative_iff (d : Dec) : d.isNegative = true ↔ d.int < 0 := by simp [isNegative]

@[simp] theorem isPositive_iff (d : Dec) : d.isPositive = true ↔ 0 < d.int := by simp [isPositive]

@[simp] theorem neg_int (d : Dec) : d.neg.int = -d.int := rfl

@[simp] theorem zeroDec_int : zeroDec.int = 0 := rfl

@[simp] theorem newDecFromInt_int (i : SdkInt) : (newDecFromInt i).int = i.i * precisionReuse := rfl

@[simp] theorem newDec_int (i : Int64) : (newDec i).int = i.toInt * precisionReuse := rfl

/-- A value between zero and a `Dec` is in range. -/
theorem exists_checked_of_le {i : Int} (d : Dec) (h0 : 0 ≤ i) (h : i ≤ d.int) :
    ∃ r, checked i = some r ∧ r.int = i := by
  have hb := d.bound
  have hi : i.natAbs < 2 ^ (maxBitLen + decimalPrecisionBits) := by omega
  exact ⟨⟨i, hi⟩, checked_eq_some.2 ⟨rfl, hi⟩, rfl⟩

theorem precisionReuse_pos : 0 < precisionReuse := by decide

/-! ## Rounding -/

theorem chopNonNegAndRound_ge (d : Int) : d.tdiv precisionReuse ≤ chopNonNegAndRound d := by
  simp only [chopNonNegAndRound]
  split_ifs <;> omega

theorem chopNonNegAndRound_le_succ (d : Int) :
    chopNonNegAndRound d ≤ d.tdiv precisionReuse + 1 := by
  simp only [chopNonNegAndRound]
  split_ifs <;> omega

/-- Rounding never passes a multiple of `10 ^ 18` above its argument. -/
theorem chopNonNegAndRound_le {d k : Int} (h0 : 0 ≤ d) (hk : d ≤ k * precisionReuse) :
    chopNonNegAndRound d ≤ k := by
  have hq : d.tdiv precisionReuse = d / precisionReuse := Int.tdiv_eq_ediv_of_nonneg h0
  rcases hk.lt_or_eq with hlt | rfl
  · have : d / precisionReuse < k := (Int.ediv_lt_iff_lt_mul precisionReuse_pos).2 hlt
    have := chopNonNegAndRound_le_succ d
    omega
  · -- an exact multiple has no digits to round
    have hr : (k * precisionReuse).tmod precisionReuse = 0 := by
      rw [Int.tmod_eq_emod_of_nonneg h0]
      exact Int.mul_emod_left k precisionReuse
    simp only [chopNonNegAndRound, hr, if_true]
    rw [hq, Int.mul_ediv_cancel k precisionReuse_pos.ne']

theorem chopPrecisionAndRound_of_nonneg {d : Int} (h : 0 ≤ d) :
    chopPrecisionAndRound d = chopNonNegAndRound d := by
  simp [chopPrecisionAndRound, not_lt.2 h]

theorem chopPrecisionAndRound_of_nonpos {d : Int} (h : d ≤ 0) :
    chopPrecisionAndRound d = -chopNonNegAndRound (-d) := by
  rcases h.lt_or_eq with h | rfl
  · simp [chopPrecisionAndRound, h]
  · rfl

theorem chopNonNegAndRound_mono {a b : Int} (ha : 0 ≤ a) (hab : a ≤ b) :
    chopNonNegAndRound a ≤ chopNonNegAndRound b := by
  have hb : 0 ≤ b := ha.trans hab
  have hP : precisionReuse = 1000000000000000000 := by decide
  have h5 : fivePrecision = 500000000000000000 := by decide
  -- on non-negative arguments the truncations are floor division, which `omega` knows
  simp only [chopNonNegAndRound, Int.tdiv_eq_ediv_of_nonneg ha, Int.tdiv_eq_ediv_of_nonneg hb,
    Int.tmod_eq_emod_of_nonneg ha, Int.tmod_eq_emod_of_nonneg hb, hP, h5]
  split_ifs <;> omega

theorem chopNonNegAndRound_nonneg {d : Int} (h : 0 ≤ d) : 0 ≤ chopNonNegAndRound d :=
  (Int.tdiv_nonneg h precisionReuse_pos.le).trans (chopNonNegAndRound_ge d)

theorem chopPrecisionAndRound_mono {a b : Int} (ha : 0 ≤ a) (hab : a ≤ b) :
    chopPrecisionAndRound a ≤ chopPrecisionAndRound b := by
  rw [chopPrecisionAndRound_of_nonneg ha, chopPrecisionAndRound_of_nonneg (ha.trans hab)]
  exact chopNonNegAndRound_mono ha hab

/-- ... and so does it rounded. -/
theorem chopPrecisionAndRound_mul_mem {b m : Int} (hb : 0 ≤ b) (h0 : 0 ≤ m)
    (h1 : m ≤ precisionReuse) :
    0 ≤ chopPrecisionAndRound (b * m) ∧ chopPrecisionAndRound (b * m) ≤ b := by
  have hm : 0 ≤ b * m := Int.mul_nonneg hb h0
  rw [chopPrecisionAndRound_of_nonneg hm]
  have := chopNonNegAndRound_ge (b * m)
  have := Int.tdiv_nonneg hm precisionReuse_pos.le
  exact ⟨by omega, chopNonNegAndRound_le hm (Int.mul_le_mul_of_nonneg_left h1 hb)⟩

/-! ## What the operations compute -/

theorem mulInt_int {d r : Dec} {i : SdkInt} (h : d.mulInt i = some r) : r.int = d.int * i.i :=
  (checked_eq_some.1 h).1

theorem quoInt_int {d r : Dec} {i : SdkInt} (h : d.quoInt i = some r) :
    i.i ≠ 0 ∧ r.int = d.int.tdiv i.i := by
  unfold quoInt at h
  split at h
  · cases h
  · exact ⟨‹_›, (checked_eq_some.1 h).1⟩

theorem quo_int {d d2 r : Dec} (h : d.quo d2 = some r) :
    d2.int ≠ 0 ∧
      r.int = chopPrecisionAndRound ((d.int * precisionReuse * precisionReuse).tdiv d2.int) := by
  unfold quo quoRaw at h
  split at h
  · cases h
  · exact ⟨‹_›, (checked_eq_some.1 h).1⟩

theorem truncateInt_i {d : Dec} {t : SdkInt} (h : d.truncateInt = some t) :
    t.i = d.int.tdiv precisionReuse :=
  (SdkInt.checked_eq_some.1 h).1

end Dec

end Barkis
