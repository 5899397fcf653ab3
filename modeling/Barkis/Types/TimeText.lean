import Mathlib.Tactic.IntervalCases
import Barkis.Types.Time

/-!
# Time keys

`types/utils.go` writes a time as a sortable key, `FormatTimeBytes`: the time in UTC in the layout
`SortableTimeFormat`, `2006-01-02T15:04:05.000000000`; `ParseTimeBytes` reads it back with
`time.Parse`. `Format` and `Parse` are those of Go's `time` package for the elements of that
layout: `Format` writes each element after the literal text before it, and `Parse` skips the
literal text and reads each element with `getnum`, `atoi` or `parseNanoseconds`.

From year 0 to year 9999 every field has its fixed width:

* `Civil.text_eq`: the text of a date and clock is the zero-padded numerals of its fields;
* `Civil.text_lt_iff`: texts are ordered as the fields from the year down;
* `Civil.parse_text`: `Parse` reads the fields back;
* `formatTimeBytes_lt_iff`, `parseTimeBytes_formatTimeBytes`: so the keys of times are ordered as
  the times, and read back to them.
-/

namespace Barkis

namespace Time

/-! ## Formatting -/

/-- `'0' + d`. -/
def digitByte (d : Nat) : UInt8 := UInt8.ofNat (48 + d)

/-- The decimal digits of `u`, as `appendInt` assembles them. -/
def decimalBytes (u : Nat) : List UInt8 := (Nat.toDigits 10 u).map Char.toUInt8

/-- `appendInt`: the digits of `x`, zero-padded to `width`, after a `-` when `x` is negative. -/
def appendInt (x : Int) (width : Nat) : List UInt8 :=
  let digits := decimalBytes x.natAbs
  (if x < 0 then [45] else []) ++ List.replicate (width - digits.length) 48 ++ digits

/-- `formatNano` without trimming: a point and the first `n` of nine digits. -/
def formatNano (nanosec n : Nat) : List UInt8 :=
  46 :: ((FixedWidth.fixedDigits 10 9 nanosec).map digitByte).take (min n 9)

/-- The layout elements of `SortableTimeFormat`. -/
inductive StdChunk
  | longYear
  | zeroMonth
  | zeroDay
  | hour
  | zeroMinute
  | zeroSecond
  | fracSecond0 (digits : Nat)
  deriving DecidableEq

/-- The layout text of an element: `2006`, `01`, `02`, `15`, `04`, `05`, or a point and zeros. -/
def StdChunk.text : StdChunk → List UInt8
  | .longYear => [50, 48, 48, 54]
  | .zeroMonth => [48, 49]
  | .zeroDay => [48, 50]
  | .hour => [49, 53]
  | .zeroMinute => [48, 52]
  | .zeroSecond => [48, 53]
  | .fracSecond0 n => 46 :: List.replicate n 48

/-- `SortableTimeFormat`, `2006-01-02T15:04:05.000000000`, cut as `nextStdChunk` cuts it: each
element after the literal text before it. -/
def sortableTimeFormat : List (List UInt8 × StdChunk) :=
  [([], .longYear), ([45], .zeroMonth), ([45], .zeroDay), ([84], .hour), ([58], .zeroMinute),
    ([58], .zeroSecond), ([], .fracSecond0 9)]

/-- What `Format` writes for one element. -/
def StdChunk.format (year : Int) (month day hour min sec nsec : Nat) : StdChunk → List UInt8
  | .longYear => appendInt year 4
  | .zeroMonth => appendInt month 2
  | .zeroDay => appendInt day 2
  | .hour => appendInt hour 2
  | .zeroMinute => appendInt min 2
  | .zeroSecond => appendInt sec 2
  | .fracSecond0 n => formatNano nsec n

/-- `Time.Format` in UTC. -/
def format (layout : List (List UInt8 × StdChunk)) (t : Time) : List UInt8 :=
  let (year, month, day, _) := absDate t.abs
  let (hour, min, sec) := absClock t.abs
  layout.flatMap fun (lit, std) => lit ++ std.format year month day hour min sec t.nsec

/-! ## Parsing -/

/-- The `Message` of a `time.ParseError`. -/
inductive ParseMessage
  | none
  /-- `": " + element + " out of range"` -/
  | outOfRange (element : String)
  /-- `": extra text: " + value` -/
  | extraText
  deriving DecidableEq

/-- `time.ParseError` of a parse in one layout: the layout element, the value left, the
message. -/
structure ParseError where
  layoutElem : List UInt8
  valueElem : List UInt8
  message : ParseMessage
  deriving DecidableEq

/-- `isDigit(s, i)`. -/
def isDigitAt (s : List UInt8) (i : Nat) : Bool :=
  match s[i]? with
  | some c => 48 ≤ c && c ≤ 57
  | none => false

/-- The value of a digit byte. -/
def digitValue (c : UInt8) : Nat := c.toNat - 48

/-- `getnum`: one or two digits, exactly two if `fixed`; `none` is `errBad`. -/
def getnum (s : List UInt8) (fixed : Bool) : Option (Nat × List UInt8) :=
  match s with
  | c :: d :: rest =>
    if !isDigitAt s 0 then none
    else if !isDigitAt s 1 then if fixed then none else some (digitValue c, d :: rest)
    else some (digitValue c * 10 + digitValue d, rest)
  | [c] => if !isDigitAt s 0 then none else if fixed then none else some (digitValue c, [])
  | [] => none

/-- The loop of `leadingInt`: the digits at the front onto `x`, and the rest; `none` when the
`int64` overflows. -/
def leadingInt (x : Nat) : List UInt8 → Option (Nat × List UInt8)
  | [] => some (x, [])
  | c :: s =>
    if c < 48 ∨ 57 < c then some (x, c :: s)
    else if 2 ^ 63 / 10 < x then none
    else
      let x := x * 10 + digitValue c
      if 2 ^ 63 ≤ x then none else leadingInt x s

/-- `atoi`: a sign or none, then digits and nothing else. -/
def atoi (s : List UInt8) : Option Int :=
  let (neg, s) := match s with
    | c :: rest => if c = 45 ∨ c = 43 then (c == 45, rest) else (false, c :: rest)
    | [] => (false, [])
  match leadingInt 0 s with
  | some (q, []) => some (if neg then -(q : Int) else q)
  | _ => none

/-- The loop of `skip`; `cutting` while the spaces after a space of the layout are cut. -/
def skipLoop (value : List UInt8) : Bool → List UInt8 → Except (List UInt8) (List UInt8)
  | true, 32 :: lit => skipLoop value true lit
  | _, [] => .ok value
  | _, p :: lit =>
    if p = 32 then
      -- a space of the layout matches a run of spaces, or none at the end of the value
      if value ≠ [] ∧ value.head? ≠ some 32 then .error value
      else skipLoop (value.dropWhile (· = 32)) true lit
    else
      match value with
      | v :: value => if v = p then skipLoop value false lit else .error (v :: value)
      | [] => .error []

/-- `skip`: the literal text of the layout at the front of the value; on a mismatch, the value
there. -/
def skip (value lit : List UInt8) : Except (List UInt8) (List UInt8) := skipLoop value false lit

/-- `parseNanoseconds` of the first `nbytes` bytes: the nanoseconds, a range error, or `errBad`. -/
def parseNanoseconds (value : List UInt8) (nbytes : Nat) : Except (Option String) Int :=
  if value.head? ≠ some 46 then .error none
  else
    match atoi ((value.take nbytes).drop 1) with
    | none => .error none
    | some ns =>
      if ns < 0 ∨ 1000000000 ≤ ns then .error (some "fractional second")
      else .ok (ns * 10 ^ (10 - nbytes))

/-- The fields `parse` fills. -/
structure Fields where
  year : Int
  month : Int
  day : Int
  hour : Int
  min : Int
  sec : Int
  nsec : Int

/-- The fields before `parse` reads any: January 1 of year 0, at midnight. -/
def Fields.init : Fields := ⟨0, 1, 1, 0, 0, 0, 0⟩

/-- What one element leaves: the fields, the value, the range error and whether `err` is set. -/
structure StepResult where
  fields : Fields
  value : List UInt8
  rangeErr : Option String
  bad : Bool

/-- The case of one element in the loop of `parse`. -/
def StdChunk.parse (f : Fields) (value : List UInt8) : StdChunk → StepResult
  | .longYear =>
    if value.length < 4 ∨ !isDigitAt value 0 then ⟨f, value, none, true⟩
    else
      match atoi (value.take 4) with
      | none => ⟨{ f with year := 0 }, value.drop 4, none, true⟩
      | some year => ⟨{ f with year := year }, value.drop 4, none, false⟩
  | .zeroMonth =>
    match getnum value true with
    -- a failed `getnum` leaves the month at zero, which is out of range
    | none => ⟨{ f with month := 0 }, value, some "month", true⟩
    | some (month, value) =>
      ⟨{ f with month := month }, value, if month = 0 ∨ 12 < month then some "month" else none,
        false⟩
  | .zeroDay =>
    match getnum value true with
    | none => ⟨{ f with day := 0 }, value, none, true⟩
    | some (day, value) => ⟨{ f with day := day }, value, none, false⟩
  | .hour =>
    match getnum value false with
    | none => ⟨{ f with hour := 0 }, value, none, true⟩
    | some (h, value) =>
      ⟨{ f with hour := h }, value, if 24 ≤ h then some "hour" else none, false⟩
  | .zeroMinute =>
    match getnum value true with
    | none => ⟨{ f with min := 0 }, value, none, true⟩
    | some (min, value) =>
      ⟨{ f with min := min }, value, if 60 ≤ min then some "minute" else none, false⟩
  | .zeroSecond =>
    -- a fraction after the seconds is left to the next element, which reads one
    match getnum value true with
    | none => ⟨{ f with sec := 0 }, value, none, true⟩
    | some (sec, value) =>
      ⟨{ f with sec := sec }, value, if 60 ≤ sec then some "second" else none, false⟩
  | .fracSecond0 n =>
    let ndigit := 1 + n
    if value.length < ndigit then ⟨f, value, none, true⟩
    else
      match parseNanoseconds value ndigit with
      | .error rangeErr => ⟨f, value.drop ndigit, rangeErr, rangeErr.isNone⟩
      | .ok nsec => ⟨{ f with nsec := nsec }, value.drop ndigit, none, false⟩

/-- The loop of `parse` over the elements of the layout. -/
def parseLoop (f : Fields) (value : List UInt8) :
    List (List UInt8 × StdChunk) → Except ParseError (Fields × List UInt8)
  | [] => if value ≠ [] then .error ⟨[], value, .extraText⟩ else .ok (f, value)
  | (lit, std) :: layout =>
    match skip value lit with
    | .error value => .error ⟨lit, value, .none⟩
    | .ok value =>
      let r := std.parse f value
      match r.rangeErr with
      | some element => .error ⟨std.text, r.value, .outOfRange element⟩
      | none =>
        if r.bad then .error ⟨std.text, r.value, .none⟩ else parseLoop r.fields r.value layout

/-- `time.Parse` in UTC: the loop, then the check of the day of the month, then `Date`. -/
def parse (layout : List (List UInt8 × StdChunk)) (value : List UInt8) : Except ParseError Time :=
  match parseLoop Fields.init value layout with
  | .error e => .error e
  | .ok (f, value) =>
    if f.day < 1 ∨ daysIn f.month.toNat f.year < f.day then
      .error ⟨[], value, .outOfRange "day"⟩
    else .ok (date f.year f.month f.day f.hour f.min f.sec f.nsec)

/-! ## Fixed-width fields -/

open FixedWidth Barkis.Lex

/-- The `w` decimal digits of `n`, as bytes. -/
def numeral (w n : Nat) : List UInt8 := (fixedDigits 10 w n).map digitByte

@[simp] theorem length_numeral (w n : Nat) : (numeral w n).length = w := by
  simp [numeral]

theorem toNat_digitByte {d : Nat} (h : d < 10) : (digitByte d).toNat = 48 + d := by
  rw [digitByte, UInt8.toNat_ofNat']
  omega

theorem strictMonoOn_digitByte : StrictMonoOn digitByte {d | d < 10} := by
  intro a ha b hb hab
  rw [UInt8.lt_iff_toNat_lt, toNat_digitByte ha, toNat_digitByte hb]
  omega

theorem toUInt8_digitChar {d : Nat} (h : d < 10) : (Nat.digitChar d).toUInt8 = digitByte d := by
  interval_cases d <;> rfl

/-- The last digit comes off the end, as `appendInt` writes it. -/
theorem decimalBytes_eq (n : Nat) :
    decimalBytes n = (if n < 10 then [] else decimalBytes (n / 10)) ++ [digitByte (n % 10)] := by
  rw [decimalBytes, Nat.toDigits_eq_if (by omega)]
  split
  · simp [toUInt8_digitChar ‹n < 10›, Nat.mod_eq_of_lt ‹n < 10›]
  · simp [decimalBytes, toUInt8_digitChar (Nat.mod_lt n (by omega : 10 > 0))]

@[simp] theorem numeral_zero (w : Nat) : numeral w 0 = List.replicate w 48 := by
  simp only [numeral, fixedDigits_zero, List.map_replicate]
  rfl

/-- `appendInt` pads the digits of a number below `10 ^ w` to exactly `w` digits. -/
theorem replicate_append_decimalBytes : ∀ {w n : Nat}, 1 ≤ w → n < 10 ^ w →
    List.replicate (w - (decimalBytes n).length) 48 ++ decimalBytes n = numeral w n
  | 0, _, hw, _ => absurd hw (by decide)
  | w + 1, n, _, hn => by
    rw [numeral, fixedDigits_succ, List.map_append, ← numeral, decimalBytes_eq n]
    by_cases h10 : n < 10
    · rw [if_pos h10, Nat.div_eq_of_lt h10, numeral_zero]
      simp
    · have hw : 1 ≤ w := by
        rcases w with _ | w
        · simp at hn
          omega
        · omega
      have hq : n / 10 < 10 ^ w := Nat.div_lt_of_lt_mul (by rwa [pow_succ'] at hn)
      rw [if_neg h10, ← replicate_append_decimalBytes hw hq]
      simp

theorem appendInt_natCast {w n : Nat} (hw : 1 ≤ w) (hn : n < 10 ^ w) :
    appendInt n w = numeral w n := by
  simp only [appendInt, Int.natAbs_natCast, Int.natCast_nonneg, not_lt.2, if_false,
    List.nil_append]
  exact replicate_append_decimalBytes hw hn

theorem formatNano_nine (n : Nat) : formatNano n 9 = 46 :: numeral 9 n := by
  rw [formatNano, min_self, List.take_of_length_le (by simp), numeral]

theorem numeral_lt_iff {w n m : Nat} (hn : n < 10 ^ w) (hm : m < 10 ^ w) :
    numeral w n < numeral w m ↔ n < m := by
  have hdig : ∀ x, ∀ d ∈ fixedDigits 10 w x, d ∈ {d | d < 10} :=
    fun x => fixedDigits_lt (by norm_num) w x
  rw [numeral, numeral, map_lt_map_iff strictMonoOn_digitByte (hdig n) (hdig m),
    fixedDigits_lt_iff (by norm_num) w hn hm]

theorem strictMonoOn_numeral (w : Nat) : StrictMonoOn (numeral w) {n | n < 10 ^ w} :=
  fun _ hn _ hm h => (numeral_lt_iff hn hm).2 h

/-- A field and the separator after it compare as the field, then as what follows. -/
theorem numeral_append_cons_lt_iff {w n m : Nat} (hn : n < 10 ^ w) (hm : m < 10 ^ w)
    (sep : UInt8) (r s : List UInt8) :
    numeral w n ++ sep :: r < numeral w m ++ sep :: s ↔ n < m ∨ n = m ∧ r < s := by
  rw [append_lt_append_of_length_eq _ _ (by simp), numeral_lt_iff hn hm,
    (strictMonoOn_numeral w).injOn.eq_iff hn hm, List.cons_lt_cons_self]

/-! ## The text of a date and clock -/

/-- The text `Format` writes for a date and clock. -/
def Civil.text (c : Civil) : List UInt8 :=
  sortableTimeFormat.flatMap fun (lit, std) =>
    lit ++ std.format c.year c.month c.day c.hour c.min c.sec c.nsec

/-- The fields after the year have two digits. -/
theorem Civil.Valid.lt_hundred {c : Civil} (hc : c.Valid) :
    c.month < 10 ^ 2 ∧ c.day < 10 ^ 2 ∧ c.hour < 10 ^ 2 ∧ c.min < 10 ^ 2 ∧
      c.sec < 10 ^ 2 := by
  have hm := hc.month_mem.2
  have hd := daysIn_le c.year c.month (by omega)
  have := hc.day_mem.2
  have := hc.hour_lt
  have := hc.min_lt
  have := hc.sec_lt
  omega

/-- From year 0 to 9999 the text is the numerals of the fields, each of its fixed width. -/
theorem Civil.text_eq {c : Civil} (hc : c.Valid) (hy : 0 ≤ c.year ∧ c.year < 10000) :
    c.text = numeral 4 c.year.toNat ++ 45 :: (numeral 2 c.month ++ 45 :: (numeral 2 c.day ++
      84 :: (numeral 2 c.hour ++ 58 :: (numeral 2 c.min ++ 58 :: (numeral 2 c.sec ++
        46 :: numeral 9 c.nsec))))) := by
  obtain ⟨hm, hd, hh, hmin, hs⟩ := hc.lt_hundred
  have hyear : c.year = (c.year.toNat : Int) := (Int.toNat_of_nonneg hy.1).symm
  have hy4 : c.year.toNat < 10 ^ 4 := by omega
  simp only [text, sortableTimeFormat, List.flatMap_cons, List.flatMap_nil, StdChunk.format]
  rw [hyear, appendInt_natCast (by decide) hy4, appendInt_natCast (by decide) hm,
    appendInt_natCast (by decide) hd, appendInt_natCast (by decide) hh,
    appendInt_natCast (by decide) hmin, appendInt_natCast (by decide) hs, formatNano_nine,
    Int.toNat_natCast]
  simp

/-- From year 0 to 9999 texts are ordered as the fields from the year down. -/
theorem Civil.text_lt_iff {c d : Civil} (hc : c.Valid) (hd : d.Valid)
    (hcy : 0 ≤ c.year ∧ c.year < 10000) (hdy : 0 ≤ d.year ∧ d.year < 10000) :
    c.text < d.text ↔ c.key < d.key := by
  obtain ⟨hcm, hcd, hch, hcmin, hcs⟩ := hc.lt_hundred
  obtain ⟨hdm, hdd, hdh, hdmin, hds⟩ := hd.lt_hundred
  rw [text_eq hc hcy, text_eq hd hdy, numeral_append_cons_lt_iff (by omega) (by omega),
    numeral_append_cons_lt_iff hcm hdm, numeral_append_cons_lt_iff hcd hdd,
    numeral_append_cons_lt_iff hch hdh, numeral_append_cons_lt_iff hcmin hdmin,
    numeral_append_cons_lt_iff hcs hds, numeral_lt_iff hc.nsec_lt hd.nsec_lt]
  have hlt : c.year.toNat < d.year.toNat ↔ c.year < d.year := by omega
  have heq : c.year.toNat = d.year.toNat ↔ c.year = d.year := by omega
  simp only [key, List.cons_lt_cons_iff, Nat.cast_lt, Nat.cast_inj, List.not_lt_nil, and_false,
    or_false, hlt, heq]

/-! ## Reading the text back -/

theorem digitValue_digitByte {d : Nat} (h : d < 10) : digitValue (digitByte d) = d := by
  rw [digitValue, toNat_digitByte h]
  omega

theorem isDigitAt_digitByte {d : Nat} (h : d < 10) (s : List UInt8) :
    isDigitAt (digitByte d :: s) 0 = true := by
  simp [isDigitAt, UInt8.le_iff_toNat_le, toNat_digitByte h]
  omega

theorem numeral_two {x : Nat} (hx : x < 10 ^ 2) :
    numeral 2 x = [digitByte (x / 10), digitByte (x % 10)] := by
  rw [numeral, fixedDigits_succ_cons, fixedDigits_succ_cons, Nat.mod_eq_of_lt (by omega)]
  simp [fixedDigits]

theorem getnum_numeral {x : Nat} (hx : x < 10 ^ 2) (fixed : Bool) (rest : List UInt8) :
    getnum (numeral 2 x ++ rest) fixed = some (x, rest) := by
  have h1 : x / 10 < 10 := by omega
  have h2 : x % 10 < 10 := Nat.mod_lt x (by omega)
  rw [numeral_two hx]
  simp only [List.cons_append, List.nil_append, getnum, isDigitAt_digitByte h1]
  have hd : isDigitAt (digitByte (x / 10) :: digitByte (x % 10) :: rest) 1 = true :=
    isDigitAt_digitByte h2 rest
  simp only [hd, digitValue_digitByte h1, digitValue_digitByte h2, Bool.not_true,
    Bool.false_eq_true, if_false, Option.some.injEq, Prod.mk.injEq, and_true]
  omega

/-- `leadingInt` reads digits that stay clear of the `int64` overflow check. -/
theorem leadingInt_digits : ∀ (ds : List Nat) (x : Nat), (∀ d ∈ ds, d < 10) →
    ds.foldl (fun acc d => 10 * acc + d) x < 2 ^ 63 / 10 →
    leadingInt x (ds.map digitByte) = some (ds.foldl (fun acc d => 10 * acc + d) x, [])
  | [], _, _, _ => rfl
  | d :: ds, x, hd, hlt => by
    have hd0 := hd d List.mem_cons_self
    have hle := le_foldl (by norm_num : 0 < 10) ds (10 * x + d)
    rw [List.foldl_cons] at hlt ⊢
    have hdig : ¬(digitByte d < 48 ∨ 57 < digitByte d) := by
      simp only [UInt8.lt_iff_toNat_lt, toNat_digitByte hd0]
      simp
      omega
    rw [List.map_cons, leadingInt, if_neg hdig, if_neg (by omega)]
    dsimp only
    rw [digitValue_digitByte hd0, if_neg (by omega), Nat.mul_comm x 10]
    exact leadingInt_digits ds (10 * x + d) (fun e he => hd e (List.mem_cons_of_mem d he)) hlt

theorem atoi_digits {ds : List Nat} (hd : ∀ d ∈ ds, d < 10)
    (hlt : ds.foldl (fun acc d => 10 * acc + d) 0 < 2 ^ 63 / 10) :
    atoi (ds.map digitByte) = some ((ds.foldl (fun acc d => 10 * acc + d) 0 : Nat) : Int) := by
  cases ds with
  | nil => rfl
  | cons d ds =>
    have hd0 := hd d List.mem_cons_self
    have hsign : ¬(digitByte d = 45 ∨ digitByte d = 43) := by
      rw [← UInt8.toNat_inj, ← UInt8.toNat_inj, toNat_digitByte hd0]
      simp
      omega
    simp only [atoi, List.map_cons, if_neg hsign]
    rw [← List.map_cons, leadingInt_digits (d :: ds) 0 hd hlt]
    rfl

theorem atoi_numeral {w n : Nat} (hn : n < 10 ^ w) (hw : 10 ^ w ≤ 2 ^ 63 / 10) :
    atoi (numeral w n) = some (n : Int) := by
  have hval := foldl_fixedDigits (b := 10) w n 0
  rw [Nat.mod_eq_of_lt hn, Nat.zero_mul, Nat.zero_add] at hval
  rw [numeral, atoi_digits (fixedDigits_lt (by norm_num) w n) (by omega), hval]

theorem skip_nil (value : List UInt8) : skip value [] = .ok value := rfl

theorem skip_single {p : UInt8} (hp : p ≠ 32) (rest : List UInt8) :
    skip (p :: rest) [p] = .ok rest := by
  simp [skip, skipLoop, hp]

theorem parseNanoseconds_numeral {n : Nat} (hn : n < 10 ^ 9) :
    parseNanoseconds (46 :: numeral 9 n) 10 = .ok n := by
  have htake : (46 :: numeral 9 n).take 10 = 46 :: numeral 9 n := List.take_of_length_le (by simp)
  simp only [parseNanoseconds, List.head?_cons, ne_eq, not_true_eq_false, if_false, htake,
    List.drop_one, List.tail_cons, atoi_numeral hn (by norm_num)]
  rw [if_neg (by omega)]
  simp

section Elements

variable (f : Fields) (rest : List UInt8)

theorem parse_longYear {y : Nat} (hy : y < 10 ^ 4) :
    StdChunk.longYear.parse f (numeral 4 y ++ rest) =
      ⟨{ f with year := y }, rest, none, false⟩ := by
  have hdig : isDigitAt (numeral 4 y ++ rest) 0 = true := by
    rw [numeral, fixedDigits_succ_cons, List.map_cons, List.cons_append]
    exact isDigitAt_digitByte (Nat.mod_lt _ (by norm_num)) _
  simp only [StdChunk.parse, List.length_append, length_numeral, hdig,
    List.take_left' (length_numeral 4 y), atoi_numeral hy (by norm_num),
    List.drop_left' (length_numeral 4 y)]
  simp

theorem parse_zeroMonth {m : Nat} (h1 : 1 ≤ m) (h12 : m ≤ 12) :
    StdChunk.zeroMonth.parse f (numeral 2 m ++ rest) =
      ⟨{ f with month := m }, rest, none, false⟩ := by
  simp only [StdChunk.parse, getnum_numeral (by omega : m < 10 ^ 2)]
  rw [if_neg (by omega)]

theorem parse_zeroDay {d : Nat} (hd : d < 10 ^ 2) :
    StdChunk.zeroDay.parse f (numeral 2 d ++ rest) =
      ⟨{ f with day := d }, rest, none, false⟩ := by
  simp only [StdChunk.parse, getnum_numeral hd]

theorem parse_hour {h : Nat} (hh : h < 24) :
    StdChunk.hour.parse f (numeral 2 h ++ rest) =
      ⟨{ f with hour := h }, rest, none, false⟩ := by
  simp only [StdChunk.parse, getnum_numeral (by omega : h < 10 ^ 2)]
  rw [if_neg (by omega)]

theorem parse_zeroMinute {m : Nat} (hm : m < 60) :
    StdChunk.zeroMinute.parse f (numeral 2 m ++ rest) =
      ⟨{ f with min := m }, rest, none, false⟩ := by
  simp only [StdChunk.parse, getnum_numeral (by omega : m < 10 ^ 2)]
  rw [if_neg (by omega)]

theorem parse_zeroSecond {s : Nat} (hs : s < 60) :
    StdChunk.zeroSecond.parse f (numeral 2 s ++ rest) =
      ⟨{ f with sec := s }, rest, none, false⟩ := by
  simp only [StdChunk.parse, getnum_numeral (by omega : s < 10 ^ 2)]
  rw [if_neg (by omega)]

theorem parse_fracSecond0 {n : Nat} (hn : n < 10 ^ 9) :
    (StdChunk.fracSecond0 9).parse f (46 :: numeral 9 n) =
      ⟨{ f with nsec := n }, [], none, false⟩ := by
  simp only [StdChunk.parse, List.length_cons, length_numeral, parseNanoseconds_numeral hn]
  simp

end Elements

/-- An element read without an error: the loop goes on from what it leaves. -/
theorem parseLoop_cons {f f' : Fields} {value rest value' lit : List UInt8} {std : StdChunk}
    {layout : List (List UInt8 × StdChunk)} (hskip : skip value lit = .ok rest)
    (hstd : std.parse f rest = ⟨f', value', none, false⟩) :
    parseLoop f value ((lit, std) :: layout) = parseLoop f' value' layout := by
  rw [parseLoop, hskip]
  simp only [hstd]
  rfl

/-- From year 0 to 9999 `Parse` reads the text back to `Date` of the fields. -/
theorem Civil.parse_text {c : Civil} (hc : c.Valid) (hy : 0 ≤ c.year ∧ c.year < 10000) :
    parse sortableTimeFormat c.text = .ok c.toTime := by
  obtain ⟨-, hd, -, -, -⟩ := hc.lt_hundred
  have hloop : parseLoop Fields.init c.text sortableTimeFormat =
      .ok (⟨c.year.toNat, c.month, c.day, c.hour, c.min, c.sec, c.nsec⟩, []) := by
    rw [text_eq hc hy, sortableTimeFormat,
      parseLoop_cons (skip_nil _) (parse_longYear _ _ (by omega)),
      parseLoop_cons (skip_single (by decide) _)
        (parse_zeroMonth _ _ hc.month_mem.1 hc.month_mem.2),
      parseLoop_cons (skip_single (by decide) _) (parse_zeroDay _ _ hd),
      parseLoop_cons (skip_single (by decide) _) (parse_hour _ _ hc.hour_lt),
      parseLoop_cons (skip_single (by decide) _) (parse_zeroMinute _ _ hc.min_lt),
      parseLoop_cons (skip_single (by decide) _) (parse_zeroSecond _ _ hc.sec_lt),
      parseLoop_cons (skip_nil _) (parse_fracSecond0 _ hc.nsec_lt)]
    rfl
  have hday : ¬((c.day : Int) < 1 ∨
      (daysIn (c.month : Int).toNat (c.year.toNat : Int) : Int) < c.day) := by
    rw [Int.toNat_natCast, Int.toNat_of_nonneg hy.1]
    have := hc.day_mem
    omega
  rw [parse, hloop]
  dsimp only
  rw [if_neg hday, Int.toNat_of_nonneg hy.1]
  rfl

end Time

/-- `FormatTimeBytes`. -/
def formatTimeBytes (t : Time) : List UInt8 := Time.format Time.sortableTimeFormat t

/-- `ParseTimeBytes`. -/
def parseTimeBytes (bz : List UInt8) : Except Time.ParseError Time :=
  Time.parse Time.sortableTimeFormat bz

example : formatTimeBytes ⟨0, 5, by decide⟩ =
    [49, 57, 55, 48, 45, 48, 49, 45, 48, 49, 84, 48, 48, 58, 48, 48, 58, 48, 48, 46,
      48, 48, 48, 48, 48, 48, 48, 48, 53] := by decide

theorem formatTimeBytes_eq_text (t : Time) : formatTimeBytes t = (Time.civil t).text := rfl

section Keys

variable {t u : Time}

theorem unix_add_nonneg_of_year (ht : 0 ≤ t.year) :
    0 ≤ t.unix + (Time.unixToInternal + Time.internalToAbsolute) :=
  Time.unix_add_nonneg (lt_of_lt_of_le (by decide) ht)

/-- From year 0 to 9999 the keys of times are ordered as the times. -/
theorem formatTimeBytes_lt_iff (ht : 0 ≤ t.year ∧ t.year ≤ 9999)
    (hu : 0 ≤ u.year ∧ u.year ≤ 9999) :
    formatTimeBytes t < formatTimeBytes u ↔ t.before u := by
  rw [formatTimeBytes_eq_text, formatTimeBytes_eq_text,
    Time.Civil.text_lt_iff (Time.civil_valid t) (Time.civil_valid u)
      (by rw [Time.civil_year]; omega) (by rw [Time.civil_year]; omega),
    Time.civil_key_lt_iff (unix_add_nonneg_of_year ht.1) (unix_add_nonneg_of_year hu.1)]

/-- From year 0 to 9999 `ParseTimeBytes` reads the key of a time back to the time. -/
theorem parseTimeBytes_formatTimeBytes (ht : 0 ≤ t.year ∧ t.year ≤ 9999) :
    parseTimeBytes (formatTimeBytes t) = .ok t := by
  rw [formatTimeBytes_eq_text, parseTimeBytes,
    Time.Civil.parse_text (Time.civil_valid t) (by rw [Time.civil_year]; omega),
    Time.toTime_civil (unix_add_nonneg_of_year ht.1)]

end Keys

end Barkis
