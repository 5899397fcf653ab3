import Barkis.Types.Decimal
import Barkis.Lib.JsonString

/-!
# The text of a `Dec`

`types/decimal.go` writes a `Dec` as the digits of its integer with a point before the last 18
(`String`), and reads such a text back with `NewDecFromStr`: it strips one `-`, splits at the
points, pads the decimals with zeros to 18 and hands the digits to `big.Int.SetString`. JSON wraps
`String` in a string literal; Amino writes the integer's own digits (`big.Int.MarshalText`) and
reads them with `big.Int.UnmarshalText`, which also takes a base prefix and underscores.
`NewDecFromStr` checks no bit length, so it returns the embedded `big.Int`, here an `Int`.

* `newDecFromStr_decimal`: a numeral `-?[0-9]+\.[0-9]{0,18}` reads as its value;
* `newDecFromStr_reads_extra_signs`: `SetString` reads a sign of its own, so `--5` reads as `5`,
  and `+5` and `+.5` are read as well;
* `dec_text_roundTrip`: what `String`, `MarshalJSON` and `MarshalAmino` write reads back.
-/

namespace Barkis.Dec

open Numeral JsonString

/-! ## Reading -/

/-- Go's `len` of a text: its length in UTF-8 bytes. -/
def byteLength (l : List Char) : Nat := (l.map Char.utf8Size).sum

/-- `Int.scan`: `scanSign`, then the digits of the absolute value. -/
def scan (scanAbs : List Char → Option Nat) : List Char → Option Int
  | [] => none
  | c :: rest =>
    if c = '-' then (scanAbs rest).map fun n : Nat => -(n : Int)
    else if c = '+' then (scanAbs rest).map fun n : Nat => (n : Int)
    else (scanAbs (c :: rest)).map fun n : Nat => (n : Int)

/-- `big.Int.SetString(s, 10)`: a sign or none, then one decimal digit or more. -/
def setString (s : List Char) : Option Int := scan (ofDigits 10) s

/-- `NewDecFromStr`: the embedded integer of the decimal that `str` writes, or the error's text. -/
def newDecFromStr (str : String) : Except String Int := do
  if str.toList = [] then throw "decimal string is empty"
  -- first extract any negative symbol
  let neg := str.toList.head? == some '-'
  let s := if neg then str.toList.tail else str.toList
  if s = [] then throw "decimal string is empty"
  let (lenDecs, combinedStr) ← (match s.splitOn '.' with
    | [intPart] => pure (0, intPart)
    | [intPart, frac] =>
      if byteLength frac = 0 ∨ byteLength intPart = 0 then throw "bad decimal length"
      else pure (byteLength frac, intPart ++ frac)
    | _ => throw "too many periods to be a decimal string" : Except String (Nat × List Char))
  if precision < lenDecs then
    throw s!"too much precision, maximum {precision}, len decimal {lenDecs}"
  -- add some extra zeros to correct to the precision factor
  let combinedStr := combinedStr ++ List.replicate (precision - lenDecs) '0'
  match setString combinedStr with
  | none => throw ("bad string to integer conversion, combinedStr: " ++ String.ofList combinedStr)
  | some combined => pure (if neg then -combined else combined)

/-! ## Writing -/

/-- `big.Int.MarshalText`: the decimal digits, after `-` for a negative value. -/
def marshalText (i : Int) : List Char :=
  if i < 0 then '-' :: Nat.toDigits 10 i.natAbs else Nat.toDigits 10 i.natAbs

/-- `Dec.String`. -/
def string (d : Dec) : String :=
  let isNeg := d.isNegative
  let d := if isNeg then d.neg else d
  let bzInt := marshalText d.int
  let inputSize := bzInt.length
  let bzStr :=
    -- case 1, purely decimal
    if inputSize ≤ precision then '0' :: '.' :: (List.replicate (precision - inputSize) '0' ++ bzInt)
    else
      let decPointPlace := inputSize - precision
      bzInt.take decPointPlace ++ '.' :: bzInt.drop decPointPlace
  String.ofList (if isNeg then '-' :: bzStr else bzStr)

/-- `Dec.MarshalJSON`: `json.Marshal` of `String`. -/
def marshalJSON (d : Dec) : List Char := quote d.string

/-- `Dec.UnmarshalJSON`: a JSON string, then `NewDecFromStr`; `none` for either's error. -/
def unmarshalJSON (bz : List Char) : Option Int :=
  (unmarshalString bz).bind fun text => (newDecFromStr text).toOption

/-- `Dec.MarshalAmino`: `big.Int.MarshalText` of the embedded integer. -/
def marshalAmino (d : Dec) : String := String.ofList (marshalText d.int)

/-- `nat.scan` after the base is known: digits of base `b` with `_` between two of them, and,
`afterPrefix`, also between the prefix and the first. -/
def scanDigits (b : Nat) (afterPrefix : Bool) (l : List Char) : Option Nat :=
  match l.splitOn '_' with
  | [] => none
  | first :: more =>
    if more.any List.isEmpty || (first.isEmpty && (!afterPrefix || more.isEmpty)) then none
    else ofDigits b (first ++ more.flatten)

/-- `nat.scan` with base `0`: a prefix `0x`, `0b` or `0o`, or a bare leading `0` for octal, picks
the base; decimal otherwise. A lone `0` is zero. -/
def scanBase0 : List Char → Option Nat
  | [] => none
  | c :: rest =>
    if c = '0' then
      match rest with
      | [] => some 0
      | p :: digits =>
        if p = 'x' ∨ p = 'X' then scanDigits 16 true digits
        else if p = 'b' ∨ p = 'B' then scanDigits 2 true digits
        else if p = 'o' ∨ p = 'O' then scanDigits 8 true digits
        else scanDigits 8 true rest
    else scanDigits 10 false (c :: rest)

/-- `big.Int.UnmarshalText`, that is `SetString(text, 0)`. -/
def unmarshalText (text : List Char) : Option Int := scan scanBase0 text

/-- `Dec.UnmarshalAmino`. -/
def unmarshalAmino (text : String) : Option Int := unmarshalText text.toList

/-! ## The numerals `NewDecFromStr` reads -/

theorem scan_of_ne (f : List Char → Option Nat) {c : Char} (h1 : c ≠ '-') (h2 : c ≠ '+')
    (rest : List Char) : scan f (c :: rest) = (f (c :: rest)).map fun n : Nat => (n : Int) := by
  rw [scan, if_neg h1, if_neg h2]

theorem scan_minus (f : List Char → Option Nat) (rest : List Char) :
    scan f ('-' :: rest) = (f rest).map fun n : Nat => -(n : Int) := by
  rw [scan, if_pos rfl]

/-- A decimal digit is no sign, no point and no separator. -/
theorem ne_of_digitValue_lt_ten {c : Char} (h : digitValue c < 10) :
    c ≠ '-' ∧ c ≠ '+' ∧ c ≠ '.' ∧ c ≠ '_' := by
  refine ⟨?_, ?_, ?_, ?_⟩ <;> rintro rfl <;> exact absurd h (by decide)

theorem byteLength_of_digits {l : List Char} (h : ∀ c ∈ l, digitValue c < 10) :
    byteLength l = l.length := by
  induction l with
  | nil => rfl
  | cons c cs ih =>
    have hc := utf8Size_of_digitValue_lt_ten (h c (by simp))
    have hcs := ih fun x hx => h x (by simp [hx])
    rw [byteLength, List.map_cons, List.sum_cons, hc] at *
    rw [hcs, List.length_cons, Nat.add_comm]

/-- A decimal numeral has no sign for `scanSign` to take. -/
theorem scan_digits (f : List Char → Option Nat) {l : List Char} {x : Nat}
    (h : ofDigits 10 l = some x) : scan f l = (f l).map fun n : Nat => (n : Int) := by
  obtain ⟨c, rest, rfl⟩ := List.exists_cons_of_ne_nil (ofDigits_eq_some.1 h).1
  have hc := ne_of_digitValue_lt_ten (digitValue_lt_of_ofDigits h c (by simp))
  exact scan_of_ne f hc.1 hc.2.1 rest

theorem setString_of_ofDigits {l : List Char} {x : Nat} (h : ofDigits 10 l = some x) :
    setString l = some (x : Int) := by
  rw [setString, scan_digits _ h, h]
  rfl

theorem splitOn_of_forall_ne {l : List Char} {sep : Char} (h : ∀ c ∈ l, c ≠ sep) :
    l.splitOn sep = [l] :=
  List.splitOnP_eq_singleton fun c hc => by simpa using h c hc

theorem splitOn_point {ip fp : List Char} (hi : ∀ c ∈ ip, c ≠ '.') (hf : ∀ c ∈ fp, c ≠ '.') :
    (ip ++ '.' :: fp).splitOn '.' = [ip, fp] := by
  show List.splitOnP (· == '.') (ip ++ '.' :: fp) = [ip, fp]
  rw [List.splitOnP_append_cons_of_forall_mem (fun c hc => by simpa using hi c hc) '.'
    (by decide) fp, List.splitOnP_eq_singleton fun c hc => by simpa using hf c hc]

/-- A numeral with a point and at most eighteen decimals reads as its value. -/
theorem newDecFromStr_decimal (neg : Bool) {ip fp : List Char} {a b : Nat}
    (ha : ofDigits 10 ip = some a) (hb : ofDigits 10 fp = some b) (hfp : fp.length ≤ precision) :
    newDecFromStr (String.ofList ((if neg then ['-'] else []) ++ ip ++ '.' :: fp)) =
      .ok (if neg then -((a * 10 ^ precision + b * 10 ^ (precision - fp.length) : Nat) : Int)
        else ((a * 10 ^ precision + b * 10 ^ (precision - fp.length) : Nat) : Int)) := by
  have hi := digitValue_lt_of_ofDigits ha
  have hf := digitValue_lt_of_ofDigits hb
  obtain ⟨c, ip', rfl⟩ := List.exists_cons_of_ne_nil (ofDigits_eq_some.1 ha).1
  have hc := ne_of_digitValue_lt_ten (hi c (by simp))
  have hsplit : List.splitOn '.' (c :: (ip' ++ '.' :: fp)) = [c :: ip', fp] :=
    @splitOn_point (c :: ip') fp (fun x hx => (ne_of_digitValue_lt_ten (hi x hx)).2.2.1)
      (fun x hx => (ne_of_digitValue_lt_ten (hf x hx)).2.2.1)
  have hbl : byteLength fp = fp.length := byteLength_of_digits hf
  have hlen : ¬(fp.length = 0 ∨ byteLength (c :: ip') = 0) := by
    have : fp ≠ [] := (ofDigits_eq_some.1 hb).1
    rw [byteLength_of_digits hi]
    simpa using this
  have hprec : ¬precision < fp.length := by omega
  -- the digits, with the zeros that make up eighteen decimals
  have hval : setString (c :: (ip' ++ fp ++ List.replicate (precision - fp.length) '0')) =
      some ((a * 10 ^ precision + b * 10 ^ (precision - fp.length) : Nat) : Int) := by
    have h := ofDigits_append_zeros (by norm_num) (ofDigits_append ha hb) (precision - fp.length)
    simp only [List.cons_append] at h
    rw [setString_of_ofDigits h, add_mul, mul_assoc, ← pow_add, Nat.add_sub_cancel' hfp]
  have hneg : (some c == some '-') = false := by simp [hc.1]
  cases neg <;>
  · simp only [newDecFromStr, String.toList_ofList, Bool.false_eq_true, ↓reduceIte,
      List.nil_append, List.cons_append, reduceCtorEq, List.head?_cons, List.tail_cons, hneg,
      beq_self_eq_true, hsplit, hbl, if_neg hlen, pure_bind, hprec, hval]
    rfl

/-- `big.Int.SetString` reads a sign of its own after the one `NewDecFromStr` strips, and a lone
sign before the point: `--5` reads as `5`, and `+5` and `+.5` read as `5` and `0.5`. -/
theorem newDecFromStr_reads_extra_signs :
    newDecFromStr "--5" = .ok (5 * precisionReuse) ∧ newDecFromStr "+5" = .ok (5 * precisionReuse) ∧
      newDecFromStr "+.5" = .ok (5 * precisionReuse / 10) := by
  decide

/-! ## Reading back what is written -/

theorem marshalText_of_nonneg {i : Int} (h : 0 ≤ i) : marshalText i = Nat.toDigits 10 i.natAbs := by
  rw [marshalText, if_neg (by omega)]

/-- The digits `String` places are those of the absolute value, whatever the sign. -/
theorem string_bzInt (d : Dec) :
    marshalText (if d.isNegative then d.neg else d).int = Nat.toDigits 10 d.int.natAbs := by
  unfold isNegative
  by_cases h : d.int < 0
  · rw [if_pos (decide_eq_true h), neg, marshalText_of_nonneg (show 0 ≤ -d.int by omega),
      Int.natAbs_neg]
  · rw [if_neg (by simpa using h), marshalText_of_nonneg (by omega)]

/-- `String` writes a numeral with a point and eighteen decimals, whose value is that of `d`. -/
theorem string_eq (d : Dec) :
    ∃ ip fp a b, d.string = String.ofList ((if d.isNegative then ['-'] else []) ++ ip ++ '.' :: fp) ∧
      ofDigits 10 ip = some a ∧ ofDigits 10 fp = some b ∧ fp.length = precision ∧
      a * 10 ^ precision + b = d.int.natAbs := by
  have hbz := string_bzInt d
  have hn := ofDigits_toDigits d.int.natAbs
  generalize Nat.toDigits 10 d.int.natAbs = l at hbz hn
  by_cases hs : l.length ≤ precision
  · -- case 1, purely decimal: `0.` and zeros before the digits
    refine ⟨['0'], List.replicate (precision - l.length) '0' ++ l, 0, d.int.natAbs, ?_, by decide,
      ofDigits_zeros_append (by norm_num) hn _, ?_, by rw [Nat.zero_mul, Nat.zero_add]⟩
    · simp only [string, hbz, if_pos hs]
      cases d.isNegative <;> rfl
    · rw [List.length_append, List.length_replicate]
      omega
  · -- the point goes before the last eighteen digits
    obtain ⟨a, b, ha, hb, hab⟩ := ofDigits_take_drop hn (j := l.length - precision)
      (by unfold precision at hs ⊢; omega) (by unfold precision at hs ⊢; omega)
    have hfl : (l.drop (l.length - precision)).length = precision := by
      rw [List.length_drop]; omega
    refine ⟨l.take (l.length - precision), l.drop (l.length - precision), a, b, ?_, ha, hb, hfl, ?_⟩
    · simp only [string, hbz, if_neg hs]
      cases d.isNegative <;> rfl
    · rwa [show l.length - (l.length - precision) = precision by omega] at hab

/-- A positive numeral does not start with `0`. -/
theorem toDigits_head_ne_zero {n : Nat} (hn : 0 < n) :
    ∃ c l, Nat.toDigits 10 n = c :: l ∧ c ≠ '0' := by
  induction n using Nat.strong_induction_on with
  | _ n ih =>
    rw [Nat.toDigits_eq_if (by norm_num)]
    split_ifs with h
    · have hd : ∀ m < 10, 0 < m → m.digitChar ≠ '0' := by decide
      exact ⟨_, [], rfl, hd n h hn⟩
    · -- the leading digit is that of `n / 10`
      obtain ⟨c, l, hl, hc⟩ := ih (n / 10) (by omega) (by omega)
      exact ⟨c, l ++ [(n % 10).digitChar], by rw [hl, List.cons_append], hc⟩

theorem scanDigits_of_ofDigits {b x : Nat} {l : List Char} (h : ofDigits b l = some x)
    (hl : ∀ c ∈ l, c ≠ '_') (afterPrefix : Bool) : scanDigits b afterPrefix l = some x := by
  have hne := (ofDigits_eq_some.1 h).1
  simp [scanDigits, splitOn_of_forall_ne hl, hne, h]

/-- The numeral of a positive number reads in base `0` as decimal: it has no prefix. -/
theorem scanBase0_toDigits {n : Nat} (hn : 0 < n) : scanBase0 (Nat.toDigits 10 n) = some n := by
  have h := ofDigits_toDigits n
  obtain ⟨c, l, hl, hc⟩ := toDigits_head_ne_zero hn
  rw [hl] at h ⊢
  rw [scanBase0.eq_def]
  simp only [if_neg hc]
  exact scanDigits_of_ofDigits h
    (fun x hx => (ne_of_digitValue_lt_ten (digitValue_lt_of_ofDigits h x hx)).2.2.2) false

/-- `UnmarshalText` reads back what `MarshalText` writes. -/
theorem unmarshalText_marshalText (i : Int) : unmarshalText (marshalText i) = some i := by
  rcases lt_trichotomy i 0 with h | rfl | h
  · rw [marshalText, if_pos h, unmarshalText, scan_minus, scanBase0_toDigits (by omega),
      Option.map_some]
    congr 1
    omega
  · decide
  · rw [marshalText_of_nonneg h.le, unmarshalText, scan_digits _ (ofDigits_toDigits _),
      scanBase0_toDigits (by omega), Option.map_some]
    congr 1
    omega

/-- `NewDecFromStr` reads back `String`, `UnmarshalJSON` reads back `MarshalJSON`, and
`UnmarshalAmino` reads back `MarshalAmino`. -/
theorem dec_text_roundTrip (d : Dec) :
    newDecFromStr d.string = .ok d.int ∧ unmarshalJSON (marshalJSON d) = some d.int ∧
      unmarshalAmino (marshalAmino d) = some d.int := by
  have hstr : newDecFromStr d.string = .ok d.int := by
    obtain ⟨ip, fp, a, b, hs, ha, hb, hfl, hab⟩ := string_eq d
    rw [hs, newDecFromStr_decimal _ ha hb hfl.le, hfl, Nat.sub_self, pow_zero, Nat.mul_one, hab]
    unfold isNegative
    congr 1
    split_ifs with h <;> simp only [decide_eq_true_eq] at h <;> omega
  refine ⟨hstr, ?_, ?_⟩
  · rw [unmarshalJSON, marshalJSON, unmarshalString_quote, Option.bind_some, hstr]
    rfl
  · rw [unmarshalAmino, marshalAmino, String.toList_ofList, unmarshalText_marshalText]

end Barkis.Dec
