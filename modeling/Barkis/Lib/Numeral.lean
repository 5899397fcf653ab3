import Mathlib.Tactic.Ring

/-!
# Numerals in positional notation

The digits of a base, read from the left onto an accumulator (`digitsFrom`), against the numerals
that `Nat.toDigits` writes: reading back a decimal numeral gives its number
(`digitsFrom_toDigits`), leading zeros change nothing (`digitsFrom_replicate_zero`), and a
numeral is read piece by piece (`digitsFrom_append`).
-/

namespace Barkis.Numeral

/-- The value of a digit: `0`–`9`, then `a`–`z` and `A`–`Z` for ten to thirty-five; `36` for a
character that is no digit. -/
def digitValue (c : Char) : Nat :=
  if '0' ≤ c ∧ c ≤ '9' then c.toNat - '0'.toNat
  else if 'a' ≤ c ∧ c ≤ 'z' then c.toNat - 'a'.toNat + 10
  else if 'A' ≤ c ∧ c ≤ 'Z' then c.toNat - 'A'.toNat + 10
  else 36

/-- The digits of base `b` read from the left onto `acc`; `none` at a character that is not one. -/
def digitsFrom (b : Nat) : Nat → List Char → Option Nat
  | acc, [] => some acc
  | acc, c :: cs => if digitValue c < b then digitsFrom b (b * acc + digitValue c) cs else none

/-- A numeral of base `b`: one digit or more. -/
def ofDigits (b : Nat) (cs : List Char) : Option Nat := if cs = [] then none else digitsFrom b 0 cs

theorem digitValue_digitChar : ∀ n, n < 16 → digitValue n.digitChar = n := by decide

/-- Only `0`–`9` are digits below ten. -/
theorem digitValue_lt_ten {c : Char} (h : digitValue c < 10) : '0' ≤ c ∧ c ≤ '9' := by
  unfold digitValue at h
  split_ifs at h with h1
  · exact h1
  all_goals omega

/-- A digit below ten is one byte in UTF-8. -/
theorem utf8Size_of_digitValue_lt_ten {c : Char} (h : digitValue c < 10) : c.utf8Size = 1 := by
  have hc : c.toNat ≤ 57 := (digitValue_lt_ten h).2
  exact Char.utf8Size_eq_one_iff.2 (Nat.le_trans hc (by decide))

theorem digitsFrom_append (b acc : Nat) (l₁ l₂ : List Char) :
    digitsFrom b acc (l₁ ++ l₂) = (digitsFrom b acc l₁).bind fun a => digitsFrom b a l₂ := by
  induction l₁ generalizing acc with
  | nil => rfl
  | cons c cs ih =>
    simp only [List.cons_append, digitsFrom]
    split
    · exact ih _
    · rfl

theorem digitsFrom_digitChar {b n : Nat} (hn : n < b) (hb : b ≤ 16) (acc : Nat) :
    digitsFrom b acc [n.digitChar] = some (b * acc + n) := by
  rw [digitsFrom, digitValue_digitChar n (by omega), if_pos hn]
  rfl

/-- Every character of a numeral that reads is a digit of the base. -/
theorem digitValue_lt_of_digitsFrom {b acc v : Nat} {l : List Char}
    (h : digitsFrom b acc l = some v) : ∀ c ∈ l, digitValue c < b := by
  induction l generalizing acc with
  | nil => simp
  | cons c cs ih =>
    rw [digitsFrom] at h
    split at h
    · intro x hx
      rcases List.mem_cons.1 hx with rfl | hx
      · assumption
      · exact ih h x hx
    · cases h

/-- What stands in the accumulator is shifted past the digits read after it. -/
theorem digitsFrom_eq_map (b acc : Nat) (l : List Char) :
    digitsFrom b acc l = (digitsFrom b 0 l).map fun v => acc * b ^ l.length + v := by
  induction l generalizing acc with
  | nil => simp [digitsFrom]
  | cons c cs ih =>
    simp only [digitsFrom]
    split
    · rw [ih, ih (b * 0 + digitValue c), Option.map_map]
      congr 1
      funext v
      simp only [Function.comp, List.length_cons, pow_succ]
      ring
    · rfl

theorem ofDigits_eq_some {b x : Nat} {l : List Char} :
    ofDigits b l = some x ↔ l ≠ [] ∧ digitsFrom b 0 l = some x := by
  unfold ofDigits
  split_ifs with h <;> simp [h]

theorem digitValue_lt_of_ofDigits {b x : Nat} {l : List Char} (h : ofDigits b l = some x) :
    ∀ c ∈ l, digitValue c < b :=
  digitValue_lt_of_digitsFrom (ofDigits_eq_some.1 h).2

/-- Two numerals one after the other read as one. -/
theorem ofDigits_append {b x y : Nat} {l₁ l₂ : List Char} (h₁ : ofDigits b l₁ = some x)
    (h₂ : ofDigits b l₂ = some y) : ofDigits b (l₁ ++ l₂) = some (x * b ^ l₂.length + y) := by
  obtain ⟨hne, hx⟩ := ofDigits_eq_some.1 h₁
  obtain ⟨-, hy⟩ := ofDigits_eq_some.1 h₂
  rw [ofDigits_eq_some, digitsFrom_append, hx, Option.bind_some, digitsFrom_eq_map, hy]
  exact ⟨by simp [hne], rfl⟩

theorem digitsFrom_replicate_zero (b acc k : Nat) (hb : 0 < b) :
    digitsFrom b acc (List.replicate k '0') = some (acc * b ^ k) := by
  induction k generalizing acc with
  | zero => simp [digitsFrom]
  | succ k ih =>
    have h0 : digitValue '0' = 0 := by decide
    rw [List.replicate_succ, digitsFrom, h0, if_pos hb, ih, pow_succ]
    congr 1
    ring

/-- Reading a decimal numeral back: the digits written before it shift `acc` to the left. -/
theorem digitsFrom_toDigits (n acc : Nat) :
    digitsFrom 10 acc (Nat.toDigits 10 n) = some (acc * 10 ^ (Nat.toDigits 10 n).length + n) := by
  induction n using Nat.strong_induction_on generalizing acc with
  | _ n ih =>
    rcases Nat.lt_or_ge n 10 with hn | hn
    · rw [Nat.toDigits_of_lt_base hn, digitsFrom_digitChar hn (by omega)]
      simp [Nat.mul_comm]
    · -- the numeral of `n` is that of `n / 10` followed by the digit `n % 10`
      have hsplit : Nat.toDigits 10 n = Nat.toDigits 10 (n / 10) ++ [(n % 10).digitChar] := by
        rw [← Nat.toDigits_of_lt_base (Nat.mod_lt n (by omega)),
          Nat.toDigits_append_toDigits (by omega) (by omega) (Nat.mod_lt n (by omega)),
          Nat.div_add_mod]
      rw [hsplit, digitsFrom_append, ih (n / 10) (by omega), Option.bind_some,
        digitsFrom_digitChar (Nat.mod_lt n (by omega)) (by omega), List.length_append,
        List.length_singleton, pow_succ]
      congr 1
      have h := Nat.div_add_mod n 10
      generalize n / 10 = q at h ⊢
      generalize n % 10 = r at h ⊢
      subst h
      ring

theorem ofDigits_toDigits (n : Nat) : ofDigits 10 (Nat.toDigits 10 n) = some n := by
  rw [ofDigits, if_neg Nat.toDigits_ne_nil, digitsFrom_toDigits]
  simp

/-- A numeral cut in two: each piece reads, and the pieces give the whole. -/
theorem ofDigits_take_drop {b x : Nat} {l : List Char} (h : ofDigits b l = some x) {j : Nat}
    (h0 : 0 < j) (hj : j < l.length) :
    ∃ y z, ofDigits b (l.take j) = some y ∧ ofDigits b (l.drop j) = some z ∧
      y * b ^ (l.length - j) + z = x := by
  have hx := (ofDigits_eq_some.1 h).2
  rw [← List.take_append_drop j l, digitsFrom_append, Option.bind_eq_some_iff] at hx
  obtain ⟨y, hy, hz⟩ := hx
  rw [digitsFrom_eq_map, Option.map_eq_some_iff] at hz
  obtain ⟨z, hz, rfl⟩ := hz
  refine ⟨y, z, ofDigits_eq_some.2 ⟨?_, hy⟩, ofDigits_eq_some.2 ⟨?_, hz⟩, by rw [List.length_drop]⟩
  · simp only [ne_eq, List.take_eq_nil_iff, not_or]
    exact ⟨by omega, by rintro rfl; simp at hj⟩
  · simp only [ne_eq, List.drop_eq_nil_iff, not_le]
    exact hj

/-- Zeros written after a numeral multiply it by the base. -/
theorem ofDigits_append_zeros {b x : Nat} {l : List Char} (hb : 0 < b) (h : ofDigits b l = some x)
    (k : Nat) : ofDigits b (l ++ List.replicate k '0') = some (x * b ^ k) := by
  obtain ⟨hne, hx⟩ := ofDigits_eq_some.1 h
  rw [ofDigits_eq_some, digitsFrom_append, hx, Option.bind_some, digitsFrom_replicate_zero _ _ _ hb]
  exact ⟨by simp [hne], rfl⟩

/-- Zeros written before a numeral change nothing. -/
theorem ofDigits_zeros_append {b x : Nat} {l : List Char} (hb : 0 < b) (h : ofDigits b l = some x)
    (k : Nat) : ofDigits b (List.replicate k '0' ++ l) = some x := by
  obtain ⟨hne, hx⟩ := ofDigits_eq_some.1 h
  rw [ofDigits_eq_some, digitsFrom_append, digitsFrom_replicate_zero _ _ _ hb, Option.bind_some,
    Nat.zero_mul, hx]
  exact ⟨by simp [hne], rfl⟩

end Barkis.Numeral
