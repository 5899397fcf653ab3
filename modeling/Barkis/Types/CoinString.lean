import Barkis.Types.DecString
import Barkis.Types.Coin

/-!
# Coin texts

`types/coin.go` writes a coin as the decimal digits of its amount followed by its denom
(`Coin.String`), and a set as the texts of its coins joined by commas (`Coins.String`).
`ParseCoin` matches `^([[:digit:]]+)[[:space:]]*(denom)$` and hands the digits to
`NewIntFromString`, which is `big.Int.SetString` in base `0`. `ParseDecCoin` (`types/dec_coin.go`)
matches a decimal amount and reads it with `NewDecFromStr`, in base ten. `ParseCoins` cuts the text
at the commas, parses each piece, sorts the coins and checks the set.

* `parseCoin_append`: a numeral followed by a valid denom parses to what `NewIntFromString` reads
  from the numeral: its decimal value (`newIntFromString_decimal`), or, after a leading `0`, the
  octal value of the rest (`newIntFromString_octal`);
* `parseDecCoin_point_zero`: `ParseDecCoin` reads every numeral in base ten;
* `parseCoins_string`: `ParseCoins` reads back the text of a valid set whose denoms all pass
  `validateDenom`. `IsValid` matches only the first denom against the expression, so a later one
  may be one that `ParseCoin` refuses.
-/

namespace Barkis

open Numeral

/-! ## Characters -/

/-- `unicode.IsSpace`, what `strings.TrimSpace` cuts from both ends. -/
def isSpace (c : Char) : Bool :=
  let r := c.toNat
  (0x09 ≤ r && r ≤ 0x0D) || r == 0x20 || r == 0x85 || r == 0xA0 || r == 0x1680 ||
    (0x2000 ≤ r && r ≤ 0x200A) || r == 0x2028 || r == 0x2029 || r == 0x202F || r == 0x205F ||
    r == 0x3000

/-- `[[:space:]]`. -/
def isAsciiSpace (c : Char) : Bool :=
  let r := c.toNat
  (0x09 ≤ r && r ≤ 0x0D) || r == 0x20

/-- `[[:digit:]]`. -/
def isDigit (c : Char) : Bool := '0' ≤ c && c ≤ '9'

/-- `strings.TrimSpace`. -/
def trimSpace (s : List Char) : List Char :=
  ((s.dropWhile isSpace).reverse.dropWhile isSpace).reverse

/-! ## Parsing -/

/-- `reCoin.FindStringSubmatch`: the amount and the denom. The match is unique: the amount ends at
the first character that is no digit, and the spaces at the first that is no space. -/
def matchCoin (s : List Char) : Option (List Char × List Char) :=
  let amountStr := s.takeWhile isDigit
  let denomStr := (s.dropWhile isDigit).dropWhile isAsciiSpace
  if amountStr ≠ [] ∧ DenomValid (String.ofList denomStr) then some (amountStr, denomStr) else none

/-- `reDecCoin.FindStringSubmatch`: digits or none, a point and digits, spaces, then the denom. -/
def matchDecCoin (s : List Char) : Option (List Char × List Char) :=
  match s.dropWhile isDigit with
  | '.' :: rest =>
    let fracStr := rest.takeWhile isDigit
    let denomStr := (rest.dropWhile isDigit).dropWhile isAsciiSpace
    if fracStr ≠ [] ∧ DenomValid (String.ofList denomStr) then
      some (s.takeWhile isDigit ++ '.' :: fracStr, denomStr)
    else none
  | _ => none

/-- `NewIntFromString`: `big.Int.SetString` in base `0`, then at most 255 bits. -/
def newIntFromString (s : List Char) : Option SdkInt := (Dec.unmarshalText s).bind SdkInt.checked

/-- `ParseCoin`; `none` is a panic of `NewCoin`. -/
def parseCoin (coinStr : List Char) : Option (Except String Coin) :=
  let coinStr := trimSpace coinStr
  match matchCoin coinStr with
  | none => some (.error ("invalid coin expression: " ++ String.ofList coinStr))
  | some (amountStr, denomStr) =>
    match newIntFromString amountStr with
    | none => some (.error ("failed to parse coin amount: " ++ String.ofList amountStr))
    | some amount =>
      match validateDenom (String.ofList denomStr) with
      | .error err =>
        some (.error ("invalid denom cannot contain upper case characters or spaces: " ++ err))
      | .ok () => (newCoin (String.ofList denomStr) amount).map .ok

/-- `NewDecCoinFromDec` at the integer a `Dec` embeds, which `NewDecFromStr` does not bound. An
invalid denom or a negative amount panics. -/
def newDecCoinFromDec (denom : String) (amount : Int) : Option (CoinOf Int) :=
  if (validateDenom denom).isOk && decide (0 ≤ amount) then some ⟨denom, amount⟩ else none

/-- `ParseDecCoin`; `none` is a panic of `NewDecCoinFromDec`. -/
def parseDecCoin (coinStr : List Char) : Option (Except String (CoinOf Int)) :=
  let coinStr := trimSpace coinStr
  match matchDecCoin coinStr with
  | none => some (.error ("invalid decimal coin expression: " ++ String.ofList coinStr))
  | some (amountStr, denomStr) =>
    match Dec.newDecFromStr (String.ofList amountStr) with
    | .error err =>
      some (.error ("failed to parse decimal coin amount: " ++ String.ofList amountStr ++ ": " ++
        err))
    | .ok amount =>
      match validateDenom (String.ofList denomStr) with
      | .error err =>
        some (.error ("invalid denom cannot contain upper case characters or spaces: " ++ err))
      | .ok () => (newDecCoinFromDec (String.ofList denomStr) amount).map .ok

/-- The loop of `ParseCoins`: the coins in order, or the first error or panic. -/
def parseCoinStrs : List (List Char) → Option (Except String Coins)
  | [] => some (.ok [])
  | coinStr :: coinStrs =>
    match parseCoin coinStr with
    | none => none
    | some (.error err) => some (.error err)
    | some (.ok coin) => (parseCoinStrs coinStrs).map fun r => r.map (coin :: ·)

/-- `ParseCoins`. The error for a set that is not valid prints the set with `%#v`, pointers and
all; the model keeps the text before it. -/
def parseCoins (toLower : String → String) (coinsStr : List Char) : Option (Except String Coins) :=
  let coinsStr := trimSpace coinsStr
  if coinsStr.length = 0 then some (.ok [])
  else
    (parseCoinStrs (coinsStr.splitOn ',')).map fun r => r.bind fun coins =>
      let coins := Coins.sort coins
      if Coins.isValid toLower coins then .ok coins else .error "parseCoins invalid: "

/-! ## Writing -/

namespace Coin

/-- `Coin.String`: the amount's decimal digits, then the denom. -/
def string (coin : Coin) : List Char := Dec.marshalText coin.amount.i ++ coin.denom.toList

end Coin

namespace Coins

/-- `Coins.String`: the text of each coin followed by a comma, with the last comma cut. -/
def string (coins : Coins) : List Char :=
  if coins.length = 0 then [] else (coins.flatMap fun coin => coin.string ++ [',']).dropLast

end Coins

/-! ## Characters of numerals, denoms and coin texts -/

theorem toNat_of_isDigit {c : Char} (h : isDigit c = true) : 48 ≤ c.toNat ∧ c.toNat ≤ 57 := by
  simp only [isDigit, Bool.and_eq_true, decide_eq_true_eq] at h
  exact h

theorem isDigit_of_digitValue {c : Char} (h : digitValue c < 10) : isDigit c = true := by
  simp [isDigit, digitValue_lt_ten h]

theorem isDigit_of_ofDigits {n : List Char} {a : Nat} (h : ofDigits 10 n = some a) :
    ∀ c ∈ n, isDigit c = true :=
  fun c hc => isDigit_of_digitValue (digitValue_lt_of_ofDigits h c hc)

theorem ne_of_isDigit {c : Char} (h : isDigit c = true) {d : Char}
    (hd : d.toNat < 48 ∨ 57 < d.toNat) : c ≠ d := by
  rintro rfl
  have := toNat_of_isDigit h
  omega

/-- Neither trimmed nor skipped: a character between the space and `0x85`. -/
theorem isSpace_eq_false {c : Char} (h1 : 0x20 < c.toNat) (h2 : c.toNat < 0x85) :
    isSpace c = false := by
  simp only [isSpace, Bool.or_eq_false_iff, Bool.and_eq_false_iff, decide_eq_false_iff_not,
    beq_eq_false_iff_ne]
  omega

theorem isAsciiSpace_eq_false {c : Char} (h1 : 0x20 < c.toNat) : isAsciiSpace c = false := by
  simp only [isAsciiSpace, Bool.or_eq_false_iff, Bool.and_eq_false_iff, decide_eq_false_iff_not,
    beq_eq_false_iff_ne]
  omega

/-- A valid denom starts with a lower-case letter, and all its characters are letters, digits
and `_`. -/
theorem toList_of_denomValid {s : String} (h : DenomValid s) :
    ∃ c cs, s.toList = c :: cs ∧ (97 ≤ c.toNat ∧ c.toNat ≤ 122) ∧
      ∀ x ∈ s.toList, 48 ≤ x.toNat ∧ x.toNat ≤ 122 := by
  unfold DenomValid validateDenom at h
  split at h
  · rename_i c cs hcs
    split_ifs at h with hv
    simp only [isDenomHead, isDenomTail, Bool.and_eq_true, decide_eq_true_eq, List.all_eq_true,
      Bool.or_eq_true, beq_iff_eq] at hv
    obtain ⟨⟨⟨⟨ha, hz⟩, htail⟩, -⟩, -⟩ := hv
    have hc : 97 ≤ c.toNat ∧ c.toNat ≤ 122 := ⟨ha, hz⟩
    refine ⟨c, cs, hcs, hc, fun x hx => ?_⟩
    rw [hcs] at hx
    rcases List.mem_cons.1 hx with rfl | hx
    · omega
    · rcases htail x hx with (⟨hxa, hxz⟩ | ⟨hx0, hx9⟩) | rfl
      · exact ⟨by have : 97 ≤ x.toNat := hxa; omega, hxz⟩
      · exact ⟨hx0, by have : x.toNat ≤ 57 := hx9; omega⟩
      · decide
    · cases h
  · cases h

theorem validateDenom_eq_ok {s : String} (h : DenomValid s) : validateDenom s = .ok () := by
  unfold DenomValid at h
  cases hv : validateDenom s with
  | error e => rw [hv] at h; cases h
  | ok u => rfl

theorem trimSpace_of_forall {s : List Char} (h : ∀ c ∈ s, isSpace c = false) : trimSpace s = s := by
  have hdrop : ∀ l : List Char, (∀ c ∈ l, isSpace c = false) → l.dropWhile isSpace = l := by
    intro l hl
    exact List.dropWhile_eq_self_iff.2 fun hlen => by simp [hl _ (List.getElem_mem hlen)]
  rw [trimSpace, hdrop s h, hdrop s.reverse (by simpa using h), List.reverse_reverse]

/-- A text of characters between the space and `0x85` has nothing to trim. -/
theorem trimSpace_of_toNat {s : List Char} (h : ∀ c ∈ s, 0x20 < c.toNat ∧ c.toNat < 0x85) :
    trimSpace s = s :=
  trimSpace_of_forall fun c hc => isSpace_eq_false (h c hc).1 (h c hc).2

/-! ## `NewIntFromString` -/

theorem scanDigits_of_forall_ne {b : Nat} {l : List Char} (hl : ∀ c ∈ l, c ≠ '_') (hne : l ≠ [])
    (afterPrefix : Bool) : Dec.scanDigits b afterPrefix l = ofDigits b l := by
  simp [Dec.scanDigits, Dec.splitOn_of_forall_ne hl, hne]

/-- A numeral has no sign: `SetString` reads it with `scanBase0` alone. -/
theorem newIntFromString_eq {n : List Char} (hn : ∀ c ∈ n, isDigit c = true) (hne : n ≠ []) :
    newIntFromString n = (Dec.scanBase0 n).bind fun k => SdkInt.checked k := by
  obtain ⟨c, rest, rfl⟩ := List.exists_cons_of_ne_nil hne
  have hc := hn c List.mem_cons_self
  rw [newIntFromString, Dec.unmarshalText, Dec.scan_of_ne _ (ne_of_isDigit hc (by decide))
    (ne_of_isDigit hc (by decide)), Option.bind_map]
  rfl

theorem newIntFromString_nonneg {n : List Char} (hn : ∀ c ∈ n, isDigit c = true) (hne : n ≠ [])
    {amount : SdkInt} (h : newIntFromString n = some amount) : 0 ≤ amount.i := by
  rw [newIntFromString_eq hn hne] at h
  obtain ⟨k, -, hk⟩ := Option.bind_eq_some_iff.1 h
  rw [(SdkInt.checked_eq_some.1 hk).1]
  exact Int.natCast_nonneg k

/-- A numeral without a leading zero, or a lone `0`, reads as its decimal value. -/
theorem newIntFromString_decimal {n : List Char} {a : Nat} (ha : ofDigits 10 n = some a)
    (hlead : n.head? ≠ some '0' ∨ n = ['0']) : newIntFromString n = SdkInt.checked a := by
  have hn := isDigit_of_ofDigits ha
  have hne := (ofDigits_eq_some.1 ha).1
  rw [newIntFromString_eq hn hne]
  obtain ⟨c, rest, rfl⟩ := List.exists_cons_of_ne_nil hne
  by_cases hc : c = '0'
  · -- only a lone `0` starts with `0`
    subst hc
    obtain rfl : rest = [] := by simpa using hlead
    obtain rfl : a = 0 := by simpa [ofDigits, digitsFrom, digitValue] using ha.symm
    rfl
  · have hu : ∀ x ∈ c :: rest, x ≠ '_' := fun x hx => ne_of_isDigit (hn x hx) (by decide)
    rw [Dec.scanBase0.eq_def]
    simp only [if_neg hc]
    rw [scanDigits_of_forall_ne hu hne, ha]
    rfl

/-- After a leading `0`, `SetString` in base `0` reads the rest as octal. -/
theorem newIntFromString_octal {rest : List Char} (hn : ∀ c ∈ rest, isDigit c = true)
    (hne : rest ≠ []) :
    newIntFromString ('0' :: rest) = (ofDigits 8 rest).bind fun k => SdkInt.checked k := by
  have hn' : ∀ c ∈ '0' :: rest, isDigit c = true := by
    intro c hc
    rcases List.mem_cons.1 hc with rfl | hc
    · rfl
    · exact hn c hc
  rw [newIntFromString_eq hn' (List.cons_ne_nil _ _)]
  obtain ⟨p, ds, rfl⟩ := List.exists_cons_of_ne_nil hne
  have hp := hn p List.mem_cons_self
  have hu : ∀ x ∈ p :: ds, x ≠ '_' := fun x hx => ne_of_isDigit (hn x hx) (by decide)
  -- the digit after the `0` is no base prefix
  have hx : ¬(p = 'x' ∨ p = 'X') := by
    rintro (h | h) <;> exact ne_of_isDigit hp (by decide) h
  have hb : ¬(p = 'b' ∨ p = 'B') := by
    rintro (h | h) <;> exact ne_of_isDigit hp (by decide) h
  have ho : ¬(p = 'o' ∨ p = 'O') := by
    rintro (h | h) <;> exact ne_of_isDigit hp (by decide) h
  simp only [Dec.scanBase0, if_pos, if_neg hx, if_neg hb, if_neg ho]
  rw [scanDigits_of_forall_ne hu hne]

/-! ## One coin -/

section Numeral

variable {n : List Char} (hn : ∀ c ∈ n, isDigit c = true) {s : String} (hs : DenomValid s)
include hn hs

/-- A numeral followed by a valid denom has no space to trim. -/
theorem trimSpace_append {pt : List Char} (hpt : ∀ c ∈ pt, c = '.' ∨ c = '0') :
    trimSpace (n ++ pt ++ s.toList) = n ++ pt ++ s.toList := by
  obtain ⟨-, -, -, -, hchars⟩ := toList_of_denomValid hs
  apply trimSpace_of_toNat
  intro c hc
  rcases List.mem_append.1 hc with hc | hc
  · rcases List.mem_append.1 hc with hc | hc
    · have := toNat_of_isDigit (hn c hc)
      omega
    · rcases hpt c hc with rfl | rfl <;> decide
  · have := hchars c hc
    omega

theorem matchCoin_append (hne : n ≠ []) : matchCoin (n ++ s.toList) = some (n, s.toList) := by
  obtain ⟨c, cs, hcs, hc, -⟩ := toList_of_denomValid hs
  have hcd : isDigit c = false := by
    simp only [isDigit, Bool.and_eq_false_iff, decide_eq_false_iff_not]
    exact Or.inr fun h => absurd (show c.toNat ≤ 57 from h) (by omega)
  have htake : (n ++ s.toList).takeWhile isDigit = n := by
    rw [List.takeWhile_append_of_pos hn, hcs, List.takeWhile_cons_of_neg (by simp [hcd]),
      List.append_nil]
  have hdrop : ((n ++ s.toList).dropWhile isDigit).dropWhile isAsciiSpace = s.toList := by
    rw [List.dropWhile_append_of_pos hn, hcs, List.dropWhile_cons_of_neg (by simp [hcd]),
      List.dropWhile_cons_of_neg (by simp [@isAsciiSpace_eq_false c (by omega)])]
  simp only [matchCoin, htake, hdrop, String.ofList_toList, if_pos (And.intro hne hs)]

/-- A numeral followed by a valid denom parses to what `NewIntFromString` reads from it. -/
theorem parseCoin_append (hne : n ≠ []) :
    parseCoin (n ++ s.toList) = some (match newIntFromString n with
      | none => .error ("failed to parse coin amount: " ++ String.ofList n)
      | some amount => .ok ⟨s, amount⟩) := by
  have htrim := @trimSpace_append n hn s hs [] (by simp)
  rw [List.append_nil] at htrim
  simp only [parseCoin, htrim, matchCoin_append hn hs hne, String.ofList_toList]
  cases h : newIntFromString n with
  | none => rfl
  | some amount =>
    have hnn := newIntFromString_nonneg hn hne h
    simp [validateDenom_eq_ok hs, newCoin, hnn, Except.isOk, Except.toBool]

/-- `NewDecFromStr` reads the numeral in base ten, leading zeros or none. -/
theorem parseDecCoin_point_zero {a : Nat} (ha : ofDigits 10 n = some a) :
    parseDecCoin (n ++ '.' :: '0' :: s.toList) =
      some (.ok ⟨s, (a : Int) * Dec.precisionReuse⟩) := by
  obtain ⟨c, cs, hcs, hc, -⟩ := toList_of_denomValid hs
  have hcd : isDigit c = false := by
    simp only [isDigit, Bool.and_eq_false_iff, decide_eq_false_iff_not]
    exact Or.inr fun h => absurd (show c.toNat ≤ 57 from h) (by omega)
  have htrim := @trimSpace_append n hn s hs ['.', '0'] (by simp)
  simp only [List.append_assoc, List.cons_append, List.nil_append] at htrim
  -- the amount is the numeral, a point and one zero; the denom follows
  have hmatch : matchDecCoin (n ++ '.' :: '0' :: s.toList) = some (n ++ ['.', '0'], s.toList) := by
    have hdrop : (n ++ '.' :: '0' :: s.toList).dropWhile isDigit = '.' :: '0' :: s.toList := by
      rw [List.dropWhile_append_of_pos hn, List.dropWhile_cons_of_neg (by decide)]
    have htake : (n ++ '.' :: '0' :: s.toList).takeWhile isDigit = n := by
      rw [List.takeWhile_append_of_pos hn, List.takeWhile_cons_of_neg (by decide), List.append_nil]
    have hfrac : ('0' :: s.toList).takeWhile isDigit = ['0'] := by
      rw [hcs, List.takeWhile_cons_of_pos (by decide), List.takeWhile_cons_of_neg (by simp [hcd])]
    have hden : (('0' :: s.toList).dropWhile isDigit).dropWhile isAsciiSpace = s.toList := by
      rw [hcs, List.dropWhile_cons_of_pos (by decide), List.dropWhile_cons_of_neg (by simp [hcd]),
        List.dropWhile_cons_of_neg (by simp [@isAsciiSpace_eq_false c (by omega)])]
    rw [matchDecCoin, hdrop]
    simp only [hfrac, hden, htake, String.ofList_toList, ne_eq, reduceCtorEq, not_false_eq_true,
      true_and, if_pos hs]
  have hdec := @Dec.newDecFromStr_decimal false n ['0'] a 0 ha (by decide) (by decide)
  simp only [Bool.false_eq_true, if_false, List.nil_append, List.length_singleton] at hdec
  have hval : (((a * 10 ^ Dec.precision + 0 * 10 ^ (Dec.precision - 1) : Nat) : Int)) =
      (a : Int) * Dec.precisionReuse := by
    simp [Dec.precisionReuse]
  have hnn : 0 ≤ (a : Int) * Dec.precisionReuse := by
    rw [← hval]
    exact Int.natCast_nonneg _
  simp only [parseDecCoin, htrim, hmatch, hdec, hval, String.ofList_toList, validateDenom_eq_ok hs]
  simp [newDecCoinFromDec, validateDenom_eq_ok hs, hnn, Except.isOk, Except.toBool]

end Numeral

/-! ## Coin sets -/

theorem dropLast_flatMap_append {α β : Type} (f : α → List β) (sep : β) :
    ∀ {l : List α}, l ≠ [] → (l.flatMap fun x => f x ++ [sep]).dropLast = [sep].intercalate (l.map f)
  | [x], _ => by simp
  | x :: y :: ys, _ => by
    rw [List.flatMap_cons, List.dropLast_append_of_ne_nil (by simp),
      dropLast_flatMap_append f sep (List.cons_ne_nil y ys)]
    simp only [List.map_cons, List.intercalate_cons_cons]

theorem Coins.string_eq_intercalate {coins : Coins} (h : coins ≠ []) :
    Coins.string coins = [','].intercalate (coins.map Coin.string) := by
  rw [Coins.string, if_neg (by simpa using h), dropLast_flatMap_append _ _ h]

theorem Coin.string_eq_toDigits {coin : Coin} (h : 0 ≤ coin.amount.i) :
    coin.string = Nat.toDigits 10 coin.amount.i.natAbs ++ coin.denom.toList := by
  rw [Coin.string, Dec.marshalText_of_nonneg h]

/-- The text of a coin with a valid denom and an amount of zero or more is digits and the letters,
digits and `_` of the denom. -/
theorem toNat_of_mem_coinString {coin : Coin} (hd : DenomValid coin.denom) (hp : 0 ≤ coin.amount.i) :
    ∀ c ∈ coin.string, 48 ≤ c.toNat ∧ c.toNat ≤ 122 := by
  obtain ⟨-, -, -, -, hchars⟩ := toList_of_denomValid hd
  intro c hc
  rw [Coin.string_eq_toDigits hp] at hc
  rcases List.mem_append.1 hc with hc | hc
  · have := toNat_of_isDigit (isDigit_of_ofDigits (ofDigits_toDigits _) c hc)
    omega
  · exact hchars c hc

/-- The text of a coin with a valid denom and a positive amount reads back. -/
theorem parseCoin_string {coin : Coin} (hd : DenomValid coin.denom) (hp : 0 < coin.amount.i) :
    parseCoin coin.string = some (.ok coin) := by
  have hdig := ofDigits_toDigits coin.amount.i.natAbs
  obtain ⟨c, l, hl, hc⟩ := @Dec.toDigits_head_ne_zero coin.amount.i.natAbs (by omega)
  have hchecked : SdkInt.checked (coin.amount.i.natAbs : Int) = some coin.amount :=
    SdkInt.checked_eq_some.2 ⟨by omega, by rw [Int.natAbs_natCast]; exact coin.amount.bound⟩
  rw [Coin.string_eq_toDigits hp.le,
    parseCoin_append (isDigit_of_ofDigits hdig) hd (ofDigits_eq_some.1 hdig).1,
    newIntFromString_decimal hdig (Or.inl (by simpa [hl] using hc)), hchecked]

theorem parseCoinStrs_map_string : ∀ {coins : Coins}, Coins.DenomsValid coins →
    (∀ c ∈ coins, 0 < c.amount.i) → parseCoinStrs (coins.map Coin.string) = some (.ok coins)
  | [], _, _ => rfl
  | coin :: coins, hd, hp => by
    have ih := @parseCoinStrs_map_string coins (fun c hc => hd c (List.mem_cons_of_mem _ hc))
      (fun c hc => hp c (List.mem_cons_of_mem _ hc))
    rw [List.map_cons, parseCoinStrs,
      parseCoin_string (hd coin List.mem_cons_self) (hp coin List.mem_cons_self)]
    dsimp only
    rw [ih]
    rfl

/-- `ParseCoins` reads back the text of a valid set whose denoms all pass `validateDenom`. -/
theorem parseCoins_string (toLower : String → String) {coins : Coins}
    (hv : Coins.isValid toLower coins = true) (hd : Coins.DenomsValid coins) :
    parseCoins toLower (Coins.string coins) = some (.ok coins) := by
  have hp : ∀ c ∈ coins, 0 < c.amount.i :=
    ((CoinSet.isValid_iff SdkInt.amountOps_lawful coins).1 hv).pos
  have hcoin : ∀ x ∈ coins.map Coin.string, ∀ c ∈ x, 48 ≤ c.toNat ∧ c.toNat ≤ 122 := by
    intro x hx
    obtain ⟨coin, hcoin, rfl⟩ := List.mem_map.1 hx
    exact toNat_of_mem_coinString (hd coin hcoin) (hp coin hcoin).le
  cases coins with
  | nil => rfl
  | cons coin rest =>
    have hne : (coin :: rest).map Coin.string ≠ [] := by simp
    -- the text is the coins' texts, each followed by a comma, with the last comma cut
    have hchars : ∀ c ∈ Coins.string (coin :: rest), 0x20 < c.toNat ∧ c.toNat < 0x85 := by
      intro c hc
      rw [Coins.string, if_neg (by simp)] at hc
      obtain ⟨x, hx, hcx⟩ := List.mem_flatMap.1 (List.mem_of_mem_dropLast hc)
      rcases List.mem_append.1 hcx with hcx | hcx
      · have := hcoin _ (List.mem_map_of_mem hx) c hcx
        omega
      · rw [List.mem_singleton.1 hcx]
        decide
    have hsplit : (Coins.string (coin :: rest)).splitOn ',' = (coin :: rest).map Coin.string := by
      rw [Coins.string_eq_intercalate (List.cons_ne_nil coin rest)]
      refine List.splitOn_intercalate ',' (fun x hx hc => ?_) hne
      exact absurd (hcoin x hx ',' hc).1 (by decide)
    have hlen : (Coins.string (coin :: rest)).length ≠ 0 := by
      intro h0
      rw [List.length_eq_zero_iff.1 h0, List.splitOn_nil, List.map_cons, List.cons.injEq] at hsplit
      have hstr := hsplit.1.symm
      rw [Coin.string_eq_toDigits (hp coin List.mem_cons_self).le, List.append_eq_nil_iff] at hstr
      exact (ofDigits_eq_some.1 (ofDigits_toDigits _)).1 hstr.1
    rw [parseCoins, trimSpace_of_toNat hchars]
    simp only [if_neg hlen, hsplit, parseCoinStrs_map_string hd hp, Option.map_some]
    simp [Coins.sort_of_sorted (Coins.sorted_of_isValid hv), hv, Except.bind]

/-- `ParseDecCoin` reads every numeral in base ten; `ParseCoin` agrees with it on a numeral without
a leading zero and reads the rest after a leading zero as octal; `ParseCoins` reads back the text of
a valid set whose denoms pass `validateDenom`. -/
theorem parseCoin_base_ten (toLower : String → String) :
    (∀ (n : List Char) (a : Nat) (s : String), ofDigits 10 n = some a → DenomValid s →
      parseDecCoin (n ++ '.' :: '0' :: s.toList) =
        some (.ok ⟨s, (a : Int) * Dec.precisionReuse⟩)) ∧
    (∀ (n : List Char) (a : Nat) (s : String), ofDigits 10 n = some a →
      (n.head? ≠ some '0' ∨ n = ['0']) → DenomValid s → a < 2 ^ maxBitLen →
      ∃ amount : SdkInt, amount.i = a ∧ parseCoin (n ++ s.toList) = some (.ok ⟨s, amount⟩) ∧
        parseDecCoin (n ++ '.' :: '0' :: s.toList) =
          some (.ok ⟨s, (Dec.newDecFromInt amount).int⟩)) ∧
    (∀ (rest : List Char) (s : String), (∀ c ∈ rest, isDigit c = true) → rest ≠ [] →
      DenomValid s →
      parseCoin ('0' :: rest ++ s.toList) =
        some (match (ofDigits 8 rest).bind fun k => SdkInt.checked k with
          | none => .error ("failed to parse coin amount: " ++ String.ofList ('0' :: rest))
          | some amount => .ok ⟨s, amount⟩)) ∧
    ∀ coins : Coins, Coins.isValid toLower coins = true → Coins.DenomsValid coins →
      parseCoins toLower (Coins.string coins) = some (.ok coins) := by
  refine ⟨fun n a s ha hs => parseDecCoin_point_zero (isDigit_of_ofDigits ha) hs ha, ?_, ?_,
    fun coins hv hd => parseCoins_string toLower hv hd⟩
  · intro n a s ha hlead hs hbound
    obtain ⟨amount, hamount, hi⟩ := @SdkInt.exists_checked_of_natAbs_lt a (by simpa using hbound)
    refine ⟨amount, hi, ?_, ?_⟩
    · rw [parseCoin_append (isDigit_of_ofDigits ha) hs (ofDigits_eq_some.1 ha).1,
        newIntFromString_decimal ha hlead, hamount]
    · rw [parseDecCoin_point_zero (isDigit_of_ofDigits ha) hs ha]
      simp only [Dec.newDecFromInt, hi]
  · intro rest s hn hne hs
    have hn' : ∀ c ∈ '0' :: rest, isDigit c = true := by
      intro c hc
      rcases List.mem_cons.1 hc with rfl | hc
      · rfl
      · exact hn c hc
    rw [parseCoin_append hn' hs (List.cons_ne_nil _ _), newIntFromString_octal hn hne]

/-- `ParseCoin` reads `010stake` as eight `stake`, and `ParseDecCoin` reads `010.0stake` as ten;
`08stake` fails. The set `1aaa,1bb` is valid, but its second denom is too short for `ParseCoin`. -/
theorem parseCoin_leading_zero :
    parseCoin "010stake".toList = some (.ok ⟨"stake", ⟨8, by decide⟩⟩) ∧
      parseDecCoin "010.0stake".toList = some (.ok ⟨"stake", 10 * Dec.precisionReuse⟩) ∧
      parseCoin "08stake".toList = some (.error "failed to parse coin amount: 08") ∧
      Coins.isValid id [⟨"aaa", ⟨1, by decide⟩⟩, ⟨"bb", ⟨1, by decide⟩⟩] = true ∧
      parseCoins id (Coins.string [⟨"aaa", ⟨1, by decide⟩⟩, ⟨"bb", ⟨1, by decide⟩⟩]) =
        some (.error "invalid coin expression: 1bb") := by
  decide

theorem parseCoin_base_ten_stake :
    parseDecCoin (['0', '7'] ++ '.' :: '0' :: "stake".toList) =
        some (.ok ⟨"stake", 7 * Dec.precisionReuse⟩) ∧
      (∃ amount : SdkInt, amount.i = 7 ∧ parseCoin (['7'] ++ "stake".toList) =
        some (.ok ⟨"stake", amount⟩) ∧ parseDecCoin (['7'] ++ '.' :: '0' :: "stake".toList) =
          some (.ok ⟨"stake", (Dec.newDecFromInt amount).int⟩)) ∧
      parseCoin ('0' :: ['7'] ++ "stake".toList) =
        some (match (ofDigits 8 ['7']).bind fun k => SdkInt.checked k with
          | none => .error ("failed to parse coin amount: " ++ String.ofList ['0', '7'])
          | some amount => .ok ⟨"stake", amount⟩) ∧
      parseCoins id (Coins.string [⟨"stake", ⟨7, by decide⟩⟩]) =
        some (.ok [⟨"stake", ⟨7, by decide⟩⟩]) :=
  ⟨(parseCoin_base_ten id).1 ['0', '7'] 7 "stake" (by decide) (by decide),
    (parseCoin_base_ten id).2.1 ['7'] 7 "stake" (by decide) (by decide) (by decide)
      (by norm_num [maxBitLen]),
    (parseCoin_base_ten id).2.2.1 ['7'] "stake" (List.forall_mem_singleton.2 rfl)
      (List.cons_ne_nil _ _) (by decide),
    (parseCoin_base_ten id).2.2.2 [⟨"stake", ⟨7, by decide⟩⟩] (by decide) (by decide)⟩

end Barkis
