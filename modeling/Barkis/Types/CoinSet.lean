import Barkis.Lib.SortedMerge

/-!
# Coin sets over an amount type

`types/coin.go` and `types/dec_coin.go` implement the same operations twice: `Coins` is a list
of `Coin`s with `sdk.Int` amounts, `DecCoins` a list of `DecCoin`s with `sdk.Dec` amounts, and
`IsValid`, `safeAdd`, `negative`, `SafeSub`, `Sub`, `IsAnyNegative`, `AmountOf` and
`removeZeroCoins` read the same in both. They are written here once, over a coin `CoinOf A` with
an amount in `A` and the amount operations `AmountOps A` the code calls; `Coin.lean` and
`DecCoin.lean` instantiate them under the source's names.

* `validateDenom`: the denom regular expression `[a-z][a-z0-9_]{2,15}`.
* `safeAdd` is the two-cursor merge of `SortedMerge.mergeAdd`; `AmountOf` is its bisection.
* `AmountOps.Lawful`: what the proofs need of the amounts, read through an integer view
  `toInt` below `2 ^ bits` (`sdk.Int.i`, `Dec.int`).
* `balance`: the finite map a coin set stands for, the amount at each denom as an integer.

A panic of the source is `none`. `strings.ToLower` is a parameter `toLower` of `IsValid`; all
that is used of it is that it fixes a denom that passes `validateDenom`.
-/

set_option linter.unusedSectionVars false

namespace Barkis

/-- The first character class of the denom expression, `[a-z]`. -/
def isDenomHead (c : Char) : Bool := 'a' ≤ c && c ≤ 'z'

/-- The later character class of the denom expression, `[a-z0-9_]`. -/
def isDenomTail (c : Char) : Bool := isDenomHead c || ('0' ≤ c && c ≤ '9') || c == '_'

/-- `validateDenom`: the denom must match `^[a-z][a-z0-9_]{2,15}$`. -/
def validateDenom (denom : String) : Except String Unit :=
  match denom.toList with
  | c :: cs =>
    if isDenomHead c && cs.all isDenomTail && 2 ≤ cs.length && cs.length ≤ 15 then .ok ()
    else .error ("invalid denom: " ++ denom)
  | [] => .error ("invalid denom: " ++ denom)

/-- The denom passes `validateDenom`. -/
def DenomValid (denom : String) : Prop := (validateDenom denom).isOk = true

instance (denom : String) : Decidable (DenomValid denom) :=
  inferInstanceAs (Decidable ((validateDenom denom).isOk = true))

example : DenomValid "stake" ∧ ¬DenomValid "ab" ∧ ¬DenomValid "Stake" := by decide

/-- The amount operations a coin set calls: `sdk.Int` for `Coins`, `sdk.Dec` for `DecCoins`. -/
structure AmountOps (A : Type) where
  isZero : A → Bool
  isPositive : A → Bool
  isNegative : A → Bool
  add : A → A → Option A
  sub : A → A → Option A
  neg : A → A

/-- The amounts read as integers `toInt` below `2 ^ bits`, with the operations acting on them as
checked integer arithmetic. -/
structure AmountOps.Lawful {A : Type} [Zero A] (o : AmountOps A) (toInt : A → Int) (bits : Nat) :
    Prop where
  toInt_inj : Function.Injective toInt
  bound : ∀ x, (toInt x).natAbs < 2 ^ bits
  toInt_zero : toInt 0 = 0
  isZero_iff : ∀ x, o.isZero x = true ↔ toInt x = 0
  isPositive_iff : ∀ x, o.isPositive x = true ↔ 0 < toInt x
  isNegative_iff : ∀ x, o.isNegative x = true ↔ toInt x < 0
  add_eq_some : ∀ x y r, o.add x y = some r ↔
    toInt r = toInt x + toInt y ∧ (toInt x + toInt y).natAbs < 2 ^ bits
  add_eq_none : ∀ x y, o.add x y = none ↔ 2 ^ bits ≤ (toInt x + toInt y).natAbs
  sub_eq_some : ∀ x y r, o.sub x y = some r ↔
    toInt r = toInt x - toInt y ∧ (toInt x - toInt y).natAbs < 2 ^ bits
  toInt_neg : ∀ x, toInt (o.neg x) = -toInt x

/-- A coin: `Coin` is `CoinOf sdk.Int`, `DecCoin` is `CoinOf sdk.Dec`. -/
structure CoinOf (A : Type) where
  denom : String
  amount : A
deriving DecidableEq

namespace CoinOf

variable {A : Type} (o : AmountOps A)

/-- `Coin.IsZero`. -/
def isZero (c : CoinOf A) : Bool := o.isZero c.amount

/-- `Coin.IsPositive`. -/
def isPositive (c : CoinOf A) : Bool := o.isPositive c.amount

/-- `Coin.IsNegative`. -/
def isNegative (c : CoinOf A) : Bool := o.isNegative c.amount

/-- `Coin.Add`: panics on two denoms. -/
def add (c d : CoinOf A) : Option (CoinOf A) :=
  if c.denom ≠ d.denom then none else (o.add c.amount d.amount).map fun r => ⟨c.denom, r⟩

/-- The negation `negative` applies to each coin. -/
def neg (c : CoinOf A) : CoinOf A := ⟨c.denom, o.neg c.amount⟩

/-- The amount as an integer. -/
def value (toInt : A → Int) (c : CoinOf A) : Int := toInt c.amount

end CoinOf

namespace CoinSet

open SortedMerge

variable {A : Type} (toLower : String → String) (o : AmountOps A)

/-- The loop of `IsValid` over the coins after the first: each denom is fixed by `toLower`, above
the previous one `lowDenom`, and its amount is positive. -/
def validTail (lowDenom : String) : List (CoinOf A) → Bool
  | [] => true
  | c :: rest =>
    toLower c.denom == c.denom && lowDenom < c.denom && c.isPositive o && validTail c.denom rest

/-- `IsValid` of a single coin: a valid denom and a positive amount. -/
def validSingle (c : CoinOf A) : Bool := (validateDenom c.denom).isOk && c.isPositive o

/-- `Coins.IsValid`; for two coins or more it checks `Coins{coins[0]}` as a single coin first. -/
def isValid : List (CoinOf A) → Bool
  | [] => true
  | [c] => validSingle o c
  | c :: c' :: rest => validSingle o c && validTail toLower o c.denom (c' :: rest)

/-- `removeZeroCoins`. -/
def removeZeroCoins (coins : List (CoinOf A)) : List (CoinOf A) :=
  removeZero (CoinOf.isZero o) coins

/-- `Coins.safeAdd`: the merge of two sorted coin sets, adding amounts of one denom and leaving
out zeros. -/
def safeAdd (coins coinsB : List (CoinOf A)) : Option (List (CoinOf A)) :=
  mergeAdd CoinOf.denom (CoinOf.isZero o) (CoinOf.add o) coins coinsB

/-- `Coins.Add`. -/
def add (coins coinsB : List (CoinOf A)) : Option (List (CoinOf A)) := safeAdd o coins coinsB

/-- `Coins.negative`. -/
def negative (coins : List (CoinOf A)) : List (CoinOf A) := coins.map (CoinOf.neg o)

/-- `Coins.IsAnyNegative`. -/
def isAnyNegative (coins : List (CoinOf A)) : Bool := coins.any (CoinOf.isNegative o)

/-- `Coins.SafeSub`: the difference and whether it has a negative amount. -/
def safeSub (coins coinsB : List (CoinOf A)) : Option (List (CoinOf A) × Bool) :=
  (safeAdd o coins (negative o coinsB)).map fun diff => (diff, isAnyNegative o diff)

/-- `Coins.Sub`: panics with `"negative coin amount"` on a negative difference. -/
def sub (coins coinsB : List (CoinOf A)) : Option (List (CoinOf A)) :=
  safeSub o coins coinsB >>= fun r => if r.2 then none else some r.1

/-- `Coins.AmountOf`: panics on an invalid denom, then bisects. Each recursive call of the
source validates the same denom again, with the same outcome. -/
def amountOf [Zero A] (coins : List (CoinOf A)) (denom : String) : Option A :=
  if DenomValid denom then some (bsearch CoinOf.denom CoinOf.amount coins denom) else none

/-- The finite map a coin set stands for: the amount at each denom, zero where it has none. -/
def balance (toInt : A → Int) (coins : List (CoinOf A)) (denom : String) : Int :=
  lookup CoinOf.denom (CoinOf.value toInt) coins denom

/-! ## Coins and their amounts as integers -/

variable {toInt : A → Int} {bits : Nat}

section Lawful

variable {toLower} {o : AmountOps A} {a b c : List (CoinOf A)}

theorem denom_add {c d r : CoinOf A} (h : CoinOf.add o c d = some r) : r.denom = c.denom := by
  unfold CoinOf.add at h
  split at h
  · cases h
  · obtain ⟨x, -, rfl⟩ := Option.map_eq_some_iff.1 h
    rfl

theorem balance_of_mem {coins : List (CoinOf A)} (hs : Sorted CoinOf.denom coins) {c : CoinOf A}
    (hc : c ∈ coins) : balance toInt coins c.denom = c.value toInt :=
  lookup_of_mem (CoinOf.value toInt) hs hc

theorem sorted_negative {b : List (CoinOf A)} (hb : Sorted CoinOf.denom b) :
    Sorted CoinOf.denom (negative o b) :=
  (sorted_map (CoinOf.neg o)).2 hb

theorem balance_nonneg {coins : List (CoinOf A)} (h : ∀ c ∈ coins, 0 ≤ c.value toInt)
    (d : String) : 0 ≤ balance toInt coins d := by
  by_cases hz : balance toInt coins d = 0
  · exact hz.ge
  · obtain ⟨c, hc, -, hv⟩ := exists_mem_of_lookup_ne_zero (CoinOf.value toInt) hz
    rw [balance, ← hv]
    exact h c hc

/-- A non-zero balance is held by a coin of that denom. -/
theorem exists_mem_of_balance_ne_zero {coins : List (CoinOf A)} {d : String}
    (h : balance toInt coins d ≠ 0) : ∃ c ∈ coins, c.denom = d :=
  let ⟨c, hc, hd, _⟩ := exists_mem_of_lookup_ne_zero (CoinOf.value toInt) h
  ⟨c, hc, hd⟩

theorem sorted_safeAdd (ha : Sorted CoinOf.denom a) (hb : Sorted CoinOf.denom b)
    (h : safeAdd o a b = some c) : Sorted CoinOf.denom c :=
  sorted_mergeAdd (fun _ _ _ => denom_add) a b c ha hb h

theorem denom_mem_safeAdd (h : safeAdd o a b = some c) {x : CoinOf A} (hx : x ∈ c) :
    (∃ y ∈ a, y.denom = x.denom) ∨ ∃ y ∈ b, y.denom = x.denom := by
  rcases key_mem_mergeAdd (fun _ _ _ => denom_add) a b c h x hx with h' | h' <;>
    obtain ⟨y, hy, hyx⟩ := List.mem_map.1 h'
  · exact Or.inl ⟨y, hy, hyx⟩
  · exact Or.inr ⟨y, hy, hyx⟩

theorem safeAdd_of_safeSub {diff : List (CoinOf A)} {hasNeg : Bool}
    (h : safeSub o a b = some (diff, hasNeg)) :
    safeAdd o a (negative o b) = some diff ∧ hasNeg = isAnyNegative o diff := by
  obtain ⟨d, hd, he⟩ := Option.map_eq_some_iff.1 h
  cases he
  exact ⟨hd, rfl⟩

variable [Zero A]


theorem ext_value (L : o.Lawful toInt bits) {c d : CoinOf A} (hd : c.denom = d.denom)
    (hv : c.value toInt = d.value toInt) : c = d := by
  cases c; cases d
  cases hd
  cases L.toInt_inj hv
  rfl

theorem isZero_iff (L : o.Lawful toInt bits) (c : CoinOf A) :
    c.isZero o = true ↔ c.value toInt = 0 :=
  L.isZero_iff c.amount

theorem addsValues (L : o.Lawful toInt bits) :
    AddsValues CoinOf.denom (CoinOf.value toInt) (CoinOf.add o) := by
  intro c d r h
  unfold CoinOf.add at h
  split at h
  · cases h
  · obtain ⟨x, hx, rfl⟩ := Option.map_eq_some_iff.1 h
    exact ⟨rfl, ((L.add_eq_some _ _ _).1 hx).1⟩

theorem add_eq_none_iff (L : o.Lawful toInt bits) {c d : CoinOf A} (hd : c.denom = d.denom) :
    CoinOf.add o c d = none ↔ 2 ^ bits ≤ (c.value toInt + d.value toInt).natAbs := by
  rw [CoinOf.add, if_neg (not_not.2 hd), Option.map_eq_none_iff]
  exact L.add_eq_none _ _

/-- A balance is zero or the amount of a coin, so it is in range too. -/
theorem balance_bound (L : o.Lawful toInt bits) (coins : List (CoinOf A)) (d : String) :
    (balance toInt coins d).natAbs < 2 ^ bits := by
  by_cases h : balance toInt coins d = 0
  · rw [h]
    exact Nat.two_pow_pos bits
  · obtain ⟨c, -, -, hc⟩ := exists_mem_of_lookup_ne_zero (CoinOf.value toInt) h
    rw [balance, ← hc]
    exact L.bound c.amount

/-! ## `safeAdd` on sorted coin sets -/

section SafeAdd

theorem value_ne_zero_of_safeAdd (L : o.Lawful toInt bits) (h : safeAdd o a b = some c) :
    ∀ x ∈ c, x.value toInt ≠ 0 := by
  intro x hx hz
  have := nonZero_mergeAdd a b c h x hx
  rw [(isZero_iff L x).2 hz] at this
  cases this

theorem balance_safeAdd (L : o.Lawful toInt bits) (ha : Sorted CoinOf.denom a)
    (hb : Sorted CoinOf.denom b) (h : safeAdd o a b = some c) (d : String) :
    balance toInt c d = balance toInt a d + balance toInt b d :=
  lookup_mergeAdd (fun x hx => (isZero_iff L x).1 hx) (addsValues L) a b c ha hb h d

/-- `safeAdd` panics exactly when the two balances at some denom overflow. -/
theorem safeAdd_eq_none_iff (L : o.Lawful toInt bits) (ha : Sorted CoinOf.denom a)
    (hb : Sorted CoinOf.denom b) :
    safeAdd o a b = none ↔ ∃ d, 2 ^ bits ≤ (balance toInt a d + balance toInt b d).natAbs := by
  rw [safeAdd, mergeAdd_eq_none_iff a b ha hb]
  constructor
  · rintro ⟨x, hx, y, hy, hxy, hn⟩
    refine ⟨x.denom, ?_⟩
    rw [balance_of_mem ha hx, hxy, balance_of_mem hb hy]
    exact (add_eq_none_iff L hxy).1 hn
  · rintro ⟨d, hd⟩
    -- an overflow needs both balances non-zero, each bounded by `2 ^ bits` on its own
    have hna : balance toInt a d ≠ 0 := fun h0 => by
      rw [h0, zero_add] at hd
      exact absurd (balance_bound L b d) (not_lt.2 hd)
    have hnb : balance toInt b d ≠ 0 := fun h0 => by
      rw [h0, add_zero] at hd
      exact absurd (balance_bound L a d) (not_lt.2 hd)
    obtain ⟨x, hx, rfl⟩ := exists_mem_of_balance_ne_zero hna
    obtain ⟨y, hy, hyx⟩ := exists_mem_of_balance_ne_zero hnb
    refine ⟨x, hx, y, hy, hyx.symm, (add_eq_none_iff L hyx.symm).2 ?_⟩
    rwa [balance_of_mem ha hx, ← hyx, balance_of_mem hb hy] at hd

/-- Sorted coin sets without zeros are equal when their balances are. -/
theorem eq_of_balance_eq (L : o.Lawful toInt bits) (ha : Sorted CoinOf.denom a)
    (hb : Sorted CoinOf.denom b) (hza : ∀ x ∈ a, x.value toInt ≠ 0)
    (hzb : ∀ x ∈ b, x.value toInt ≠ 0) (h : ∀ d, balance toInt a d = balance toInt b d) :
    a = b :=
  eq_of_lookup_eq (fun _ _ => ext_value L) a b ha hb hza hzb h

end SafeAdd

/-! ## `negative` -/

theorem balance_negative (L : o.Lawful toInt bits) (b : List (CoinOf A)) (d : String) :
    balance toInt (negative o b) d = -balance toInt b d := by
  rw [balance, negative, lookup_map, balance]
  simp only [CoinOf.neg, CoinOf.value, L.toInt_neg]
  exact (map_lookup _ (fun v : Int => -v) neg_zero b d).symm

/-! ## `SafeSub` -/

theorem balance_safeSub (L : o.Lawful toInt bits) (ha : Sorted CoinOf.denom a)
    (hb : Sorted CoinOf.denom b) {diff : List (CoinOf A)} {hasNeg : Bool}
    (h : safeSub o a b = some (diff, hasNeg)) (d : String) :
    balance toInt diff d = balance toInt a d - balance toInt b d := by
  rw [balance_safeAdd L ha (sorted_negative hb) (safeAdd_of_safeSub h).1, balance_negative L,
    sub_eq_add_neg]

theorem isAnyNegative_iff (L : o.Lawful toInt bits) (coins : List (CoinOf A)) :
    isAnyNegative o coins = true ↔ ∃ x ∈ coins, x.value toInt < 0 := by
  simp only [isAnyNegative, List.any_eq_true, CoinOf.isNegative, L.isNegative_iff, CoinOf.value]

/-- `SafeSub` reports a negative amount exactly when some balance of `b` exceeds that of `a`. -/
theorem hasNeg_iff (L : o.Lawful toInt bits) (ha : Sorted CoinOf.denom a)
    (hb : Sorted CoinOf.denom b) {diff : List (CoinOf A)} {hasNeg : Bool}
    (h : safeSub o a b = some (diff, hasNeg)) :
    hasNeg = true ↔ ∃ d, balance toInt a d < balance toInt b d := by
  obtain ⟨hs, rfl⟩ := safeAdd_of_safeSub h
  rw [isAnyNegative_iff L]
  constructor
  · rintro ⟨x, hx, hneg⟩
    refine ⟨x.denom, ?_⟩
    have := balance_safeSub L ha hb h x.denom
    rw [balance_of_mem (sorted_safeAdd ha (sorted_negative hb) hs) hx] at this
    linarith
  · rintro ⟨d, hd⟩
    have hbal := balance_safeSub L ha hb h d
    have hne : balance toInt diff d ≠ 0 := by linarith
    obtain ⟨x, hx, rfl⟩ := exists_mem_of_balance_ne_zero hne
    refine ⟨x, hx, ?_⟩
    rw [← balance_of_mem (sorted_safeAdd ha (sorted_negative hb) hs) hx, hbal]
    linarith

/-! ## Sorted coin sets with non-negative amounts -/

/-- Sorted, with non-negative amounts: a sum of such sets, and a difference of two, stays in
range. -/
structure NonNeg (toInt : A → Int) (coins : List (CoinOf A)) : Prop where
  sorted : Sorted CoinOf.denom coins
  nonneg : ∀ c ∈ coins, 0 ≤ c.value toInt

/-- A sorted set whose balances are all non-negative. -/
theorem NonNeg.of_balance {coins : List (CoinOf A)} (hs : Sorted CoinOf.denom coins)
    (h : ∀ d, 0 ≤ balance toInt coins d) : NonNeg toInt coins :=
  ⟨hs, fun c hc => balance_of_mem hs hc ▸ h c.denom⟩

theorem two_pow_le_natAbs_iff {x : Int} (hx : 0 ≤ x) :
    2 ^ bits ≤ x.natAbs ↔ (2 : Int) ^ bits ≤ x := by
  have h : ((2 ^ bits : Nat) : Int) = (2 : Int) ^ bits := by push_cast; rfl
  omega

/-- Two non-negative amounts whose sum is below `2 ^ bits` add within range. -/
theorem natAbs_add_lt {x y : Int} (hx : 0 ≤ x) (hy : 0 ≤ y) (h : x + y < 2 ^ bits) :
    (x + y).natAbs < 2 ^ bits :=
  not_le.1 fun h' => not_le.2 h ((two_pow_le_natAbs_iff (by omega)).1 h')

theorem nonNeg_safeAdd (L : o.Lawful toInt bits) (ha : NonNeg toInt a) (hb : NonNeg toInt b)
    (h : safeAdd o a b = some c) : NonNeg toInt c := by
  have hs := sorted_safeAdd ha.sorted hb.sorted h
  refine ⟨hs, fun x hx => ?_⟩
  rw [← balance_of_mem hs hx, balance_safeAdd L ha.sorted hb.sorted h]
  exact add_nonneg (balance_nonneg ha.nonneg _) (balance_nonneg hb.nonneg _)

/-- `SafeSub` of non-negative sets never overflows. -/
theorem safeSub_eq_some (L : o.Lawful toInt bits) (ha : NonNeg toInt a) (hb : NonNeg toInt b) :
    ∃ diff, safeSub o a b = some (diff, isAnyNegative o diff) := by
  cases h : safeAdd o a (negative o b) with
  | none =>
    obtain ⟨d, hd⟩ := (safeAdd_eq_none_iff L ha.sorted (sorted_negative hb.sorted)).1 h
    rw [balance_negative L] at hd
    -- both balances lie in `[0, 2 ^ bits)`, so their difference is in range
    have h1 := balance_bound L a d
    have h2 := balance_bound L b d
    have h3 := balance_nonneg ha.nonneg d
    have h4 := balance_nonneg hb.nonneg d
    omega
  | some diff => exact ⟨diff, by rw [safeSub, h]; rfl⟩

/-- `safeAdd` of sorted sets whose balances add up in range returns their sum. -/
theorem safeAdd_spec (L : o.Lawful toInt bits) (ha : Sorted CoinOf.denom a)
    (hb : Sorted CoinOf.denom b)
    (hroom : ∀ d, (balance toInt a d + balance toInt b d).natAbs < 2 ^ bits) :
    ∃ c, safeAdd o a b = some c ∧ Sorted CoinOf.denom c ∧
      ∀ d, balance toInt c d = balance toInt a d + balance toInt b d := by
  cases h : safeAdd o a b with
  | none =>
    obtain ⟨d, hd⟩ := (safeAdd_eq_none_iff L ha hb).1 h
    exact absurd (hroom d) (not_lt.2 hd)
  | some c => exact ⟨c, rfl, sorted_safeAdd ha hb h, balance_safeAdd L ha hb h⟩

/-- `Sub` of non-negative sets, where no balance of `b` exceeds that of `a`, returns the
difference. -/
theorem sub_spec (L : o.Lawful toInt bits) (ha : NonNeg toInt a) (hb : NonNeg toInt b)
    (hle : ∀ d, balance toInt b d ≤ balance toInt a d) :
    ∃ c, sub o a b = some c ∧ NonNeg toInt c ∧
      ∀ d, balance toInt c d = balance toInt a d - balance toInt b d := by
  obtain ⟨diff, hd⟩ := safeSub_eq_some L ha hb
  have hbal := balance_safeSub L ha.sorted hb.sorted hd
  have hneg : isAnyNegative o diff = false := by
    rw [Bool.eq_false_iff, ne_eq, hasNeg_iff L ha.sorted hb.sorted hd]
    rintro ⟨d, hlt⟩
    exact absurd (hle d) (not_le.2 hlt)
  have hs := sorted_safeAdd ha.sorted (sorted_negative hb.sorted) (safeAdd_of_safeSub hd).1
  refine ⟨diff, by rw [sub, hd, hneg]; rfl, ⟨hs, fun x hx => ?_⟩, hbal⟩
  rw [← balance_of_mem hs hx, hbal]
  linarith [hle x.denom]

/-- A coin of a denom a sorted set does not hold, added to it. -/
theorem safeAdd_single (L : o.Lawful toInt bits) {acc : List (CoinOf A)} {p : CoinOf A}
    (hs : Sorted CoinOf.denom acc) (hfree : balance toInt acc p.denom = 0) :
    ∃ acc', safeAdd o acc [p] = some acc' ∧ Sorted CoinOf.denom acc' ∧
      (∀ d, balance toInt acc' d = balance toInt acc d + if p.denom = d then p.value toInt else 0) ∧
      ∀ a ∈ acc', a.denom = p.denom ∨ ∃ y ∈ acc, y.denom = a.denom := by
  have hp : ∀ d, balance toInt [p] d = if p.denom = d then p.value toInt else 0 := by
    intro d
    rw [balance, lookup_cons, lookup_nil]
  obtain ⟨c, hc, hsc, hbc⟩ := safeAdd_spec L hs (List.pairwise_singleton _ _) fun d => by
    rw [hp]
    split_ifs with h
    · rw [← h, hfree, zero_add]
      exact L.bound p.amount
    · rw [add_zero]
      exact balance_bound L acc d
  refine ⟨c, hc, hsc, fun d => by rw [hbc, hp], fun a ha => ?_⟩
  rcases denom_mem_safeAdd hc ha with ⟨y, hy, hya⟩ | ⟨y, hy, hya⟩
  · exact Or.inr ⟨y, hy, hya⟩
  · rw [List.mem_singleton] at hy
    subst hy
    exact Or.inl hya.symm

/-- A loop over sorted coins whose step adds, at the coin's denom, an amount `val c` (or nothing
where it is zero), from a set whose denoms all come before the coins': each balance grows by
`val` of the coin of its denom. -/
theorem foldlM_addEach {P : CoinOf A → Prop} (f : List (CoinOf A) → CoinOf A → Option (List (CoinOf A)))
    (val : CoinOf A → Int)
    (hf : ∀ acc c, P c → Sorted CoinOf.denom acc → balance toInt acc c.denom = 0 →
      ∃ acc', f acc c = some acc' ∧ Sorted CoinOf.denom acc' ∧
        (∀ d, balance toInt acc' d = balance toInt acc d + if c.denom = d then val c else 0) ∧
        ∀ a ∈ acc', a.denom = c.denom ∨ ∃ y ∈ acc, y.denom = a.denom) :
    ∀ coins acc, (∀ c ∈ coins, P c) → Sorted CoinOf.denom coins → Sorted CoinOf.denom acc →
      (∀ a ∈ acc, ∀ c ∈ coins, a.denom < c.denom) →
      ∃ r, coins.foldlM f acc = some r ∧ Sorted CoinOf.denom r ∧
        ∀ d, balance toInt r d = balance toInt acc d + lookup CoinOf.denom val coins d
  | [], acc, _, _, hacc, _ => ⟨acc, rfl, hacc, fun d => by rw [lookup_nil, add_zero]⟩
  | c :: coins, acc, hP, hs, hacc, hlt => by
    -- the step adds at `c`'s denom, which the result does not hold yet
    have hfree : balance toInt acc c.denom = 0 :=
      lookup_eq_zero _ _ fun a ha => (hlt a ha c List.mem_cons_self).ne
    obtain ⟨acc', hstep, hs', hbal', hden⟩ := hf acc c (hP c List.mem_cons_self) hacc hfree
    have hlt' : ∀ a ∈ acc', ∀ c' ∈ coins, a.denom < c'.denom := by
      intro a ha c' hc'
      rcases hden a ha with h | ⟨y, hy, hya⟩
      · rw [h]
        exact hs.head_lt hc'
      · rw [← hya]
        exact hlt y hy c' (List.mem_cons_of_mem _ hc')
    obtain ⟨r, hr, hsr, hbr⟩ := foldlM_addEach f val hf coins acc'
      (fun c' hc' => hP c' (List.mem_cons_of_mem _ hc')) hs.tail hs' hlt'
    refine ⟨r, by rw [List.foldlM_cons, hstep]; exact hr, hsr, fun d => ?_⟩
    rw [hbr, hbal', lookup_cons]
    by_cases h : c.denom = d
    · subst h
      rw [if_pos rfl, if_pos rfl, lookup_eq_zero _ _ fun b hb => (hs.head_lt hb).ne', add_zero]
    · rw [if_neg h, if_neg h, add_zero]

/-! ## `IsValid` -/

/-- What `IsValid` accepts: sorted denoms, positive amounts, a first denom that passes
`validateDenom` and later denoms that `toLower` fixes. -/
structure Valid (toLower : String → String) (toInt : A → Int) (coins : List (CoinOf A)) :
    Prop where
  sorted : Sorted CoinOf.denom coins
  pos : ∀ c ∈ coins, 0 < c.value toInt
  head : ∀ c ∈ coins.head?, DenomValid c.denom
  lower : ∀ c ∈ coins.tail, toLower c.denom = c.denom

theorem valid_cons_iff {c : CoinOf A} {l : List (CoinOf A)} :
    Valid toLower toInt (c :: l) ↔ DenomValid c.denom ∧ 0 < c.value toInt ∧
      Sorted CoinOf.denom l ∧ (∀ x ∈ l, c.denom < x.denom) ∧
      ∀ x ∈ l, toLower x.denom = x.denom ∧ 0 < x.value toInt := by
  constructor
  · rintro ⟨hs, hp, hh, hl⟩
    exact ⟨hh c rfl, hp c List.mem_cons_self, hs.tail, fun x hx => hs.head_lt hx,
      fun x hx => ⟨hl x hx, hp x (List.mem_cons_of_mem c hx)⟩⟩
  · rintro ⟨hh, hpc, hs, hlt, hl⟩
    refine ⟨List.pairwise_cons.2 ⟨hlt, hs⟩, fun x hx => ?_, fun x hx => ?_,
      fun x hx => (hl x hx).1⟩
    · rcases List.mem_cons.1 hx with rfl | hx
      · exact hpc
      · exact (hl x hx).2
    · obtain rfl := Option.mem_some_iff.1 hx
      exact hh

theorem validSingle_iff (L : o.Lawful toInt bits) (c : CoinOf A) :
    validSingle o c = true ↔ DenomValid c.denom ∧ 0 < c.value toInt := by
  rw [validSingle, Bool.and_eq_true, CoinOf.isPositive, L.isPositive_iff]
  rfl

theorem validTail_iff (L : o.Lawful toInt bits) (low : String) (l : List (CoinOf A)) :
    validTail toLower o low l = true ↔ Sorted CoinOf.denom l ∧ (∀ x ∈ l, low < x.denom) ∧
      ∀ x ∈ l, toLower x.denom = x.denom ∧ 0 < x.value toInt := by
  induction l generalizing low with
  | nil => simp [validTail, Sorted]
  | cons c rest ih =>
    simp only [validTail, Bool.and_eq_true, beq_iff_eq, decide_eq_true_eq, ih, CoinOf.isPositive,
      L.isPositive_iff, Sorted, List.pairwise_cons, List.forall_mem_cons]
    constructor
    · rintro ⟨⟨⟨hl, hlow⟩, hp⟩, hs, hgt, hr⟩
      exact ⟨⟨hgt, hs⟩, ⟨hlow, fun x hx => lt_trans hlow (hgt x hx)⟩, ⟨hl, hp⟩, hr⟩
    · rintro ⟨⟨hgt, hs⟩, ⟨hlow, -⟩, ⟨hl, hp⟩, hr⟩
      exact ⟨⟨⟨hl, hlow⟩, hp⟩, hs, hgt, hr⟩

/-- `IsValid` decides `Valid`. -/
theorem isValid_iff (L : o.Lawful toInt bits) :
    ∀ coins : List (CoinOf A), isValid toLower o coins = true ↔ Valid toLower toInt coins
  | [] => iff_of_true rfl ⟨List.Pairwise.nil, by simp, by simp, by simp⟩
  | [c] => by
    rw [isValid, validSingle_iff L, valid_cons_iff]
    simp [Sorted]
  | c :: c' :: rest => by
    rw [isValid, Bool.and_eq_true, validSingle_iff L, validTail_iff L, valid_cons_iff, and_assoc]

theorem Valid.nonNeg {coins : List (CoinOf A)} (h : Valid toLower toInt coins) :
    NonNeg toInt coins :=
  ⟨h.sorted, fun c hc => (h.pos c hc).le⟩

theorem Valid.value_ne_zero {coins : List (CoinOf A)} (h : Valid toLower toInt coins) :
    ∀ c ∈ coins, c.value toInt ≠ 0 :=
  fun c hc => (h.pos c hc).ne'

/-- With a `toLower` that fixes valid denoms, every denom of a valid set is fixed by it. -/
theorem Valid.lower_all (hlow : ∀ d, DenomValid d → toLower d = d) {coins : List (CoinOf A)}
    (h : Valid toLower toInt coins) : ∀ c ∈ coins, toLower c.denom = c.denom := by
  cases coins with
  | nil => simp
  | cons c l =>
    intro x hx
    rcases List.mem_cons.1 hx with rfl | hx
    · exact hlow _ (h.head x rfl)
    · exact h.lower x hx

/-- A coin of least denom in a valid set is its first, whose denom passes `validateDenom`. -/
theorem Valid.denomValid_of_le {coins : List (CoinOf A)} (h : Valid toLower toInt coins)
    {y : CoinOf A} (hy : y ∈ coins) (hle : ∀ x ∈ coins, y.denom ≤ x.denom) :
    DenomValid y.denom := by
  cases coins with
  | nil => simp at hy
  | cons c l =>
    rcases List.mem_cons.1 hy with rfl | hy'
    · exact h.head y rfl
    · exact absurd (hle c List.mem_cons_self) (not_le.2 (h.sorted.head_lt hy'))

/-- A sorted set of positive coins whose denoms all pass `validateDenom` is valid. -/
theorem valid_of_denomValid (hlow : ∀ d, DenomValid d → toLower d = d)
    {coins : List (CoinOf A)} (hs : Sorted CoinOf.denom coins)
    (hp : ∀ c ∈ coins, 0 < c.value toInt) (hd : ∀ c ∈ coins, DenomValid c.denom) :
    Valid toLower toInt coins := by
  refine ⟨hs, hp, fun c hc => hd c (List.mem_of_mem_head? hc), fun c hc => ?_⟩
  exact hlow _ (hd c (List.mem_of_mem_tail hc))

/-- The sum of two valid sets is valid: its first denom is the first denom of one of them. -/
theorem valid_safeAdd (L : o.Lawful toInt bits) (hlow : ∀ d, DenomValid d → toLower d = d)
    (ha : Valid toLower toInt a) (hb : Valid toLower toInt b) (h : safeAdd o a b = some c) :
    Valid toLower toInt c := by
  have hs := sorted_safeAdd ha.sorted hb.sorted h
  have hbal := balance_safeAdd L ha.sorted hb.sorted h
  have h0 : ∀ d, 0 ≤ balance toInt a d := balance_nonneg ha.nonNeg.nonneg
  have h1 : ∀ d, 0 ≤ balance toInt b d := balance_nonneg hb.nonNeg.nonneg
  -- every denom of `a` and `b` keeps a positive balance, so it is the denom of a coin of `c`
  have hcov : ∀ y ∈ a ++ b, ∃ z ∈ c, z.denom = y.denom := by
    intro y hy
    refine exists_mem_of_balance_ne_zero (ne_of_gt (?_ : 0 < balance toInt c y.denom))
    rw [hbal]
    rcases List.mem_append.1 hy with hy | hy
    · rw [balance_of_mem ha.sorted hy]
      linarith [ha.pos y hy, h1 y.denom]
    · rw [balance_of_mem hb.sorted hy]
      linarith [hb.pos y hy, h0 y.denom]
  have hpos : ∀ x ∈ c, 0 < x.value toInt := by
    intro x hx
    have hx0 := value_ne_zero_of_safeAdd L h x hx
    have : 0 ≤ x.value toInt := by
      rw [← balance_of_mem hs hx, hbal]
      linarith [h0 x.denom, h1 x.denom]
    omega
  refine ⟨hs, hpos, fun x hx => ?_, fun x hx => ?_⟩
  · -- the first coin of `c` carries the least denom of `a ++ b`
    cases c with
    | nil => simp at hx
    | cons z t =>
      obtain rfl := Option.mem_some_iff.1 hx
      have hle : ∀ y ∈ a ++ b, z.denom ≤ y.denom := fun y hy => by
        obtain ⟨w, hw, hwy⟩ := hcov y hy
        exact hwy ▸ hs.head_le hw
      rcases denom_mem_safeAdd h List.mem_cons_self with ⟨y, hy, hyz⟩ | ⟨y, hy, hyz⟩
      · rw [← hyz]
        exact ha.denomValid_of_le hy fun x hx => hyz ▸ hle x (List.mem_append_left b hx)
      · rw [← hyz]
        exact hb.denomValid_of_le hy fun x hx => hyz ▸ hle x (List.mem_append_right a hx)
  · rcases denom_mem_safeAdd h (List.mem_of_mem_tail hx) with ⟨y, hy, hyx⟩ | ⟨y, hy, hyx⟩
    · rw [← hyx]
      exact ha.lower_all hlow y hy
    · rw [← hyx]
      exact hb.lower_all hlow y hy

/-- A difference with no negative amount has none. -/
theorem nonNeg_of_safeSub (L : o.Lawful toInt bits) (ha : Sorted CoinOf.denom a)
    (hb : Sorted CoinOf.denom b) {diff : List (CoinOf A)} (h : safeSub o a b = some (diff, false)) :
    NonNeg toInt diff := by
  obtain ⟨hs, hneg⟩ := safeAdd_of_safeSub h
  refine ⟨sorted_safeAdd ha (sorted_negative hb) hs, fun x hx => not_lt.1 fun hlt => ?_⟩
  have := (isAnyNegative_iff L diff).2 ⟨x, hx, hlt⟩
  rw [← hneg] at this
  cases this

/-- Each denom of a difference of non-negative sets is a denom of the first. -/
theorem denom_mem_of_safeSub (L : o.Lawful toInt bits) (ha : Sorted CoinOf.denom a)
    (hb : NonNeg toInt b) {diff : List (CoinOf A)} (h : safeSub o a b = some (diff, false)) :
    ∀ x ∈ diff, ∃ y ∈ a, y.denom = x.denom := by
  intro x hx
  have hd := nonNeg_of_safeSub L ha hb.sorted h
  have hx0 := value_ne_zero_of_safeAdd L (safeAdd_of_safeSub h).1 x hx
  have hbal := balance_safeSub L ha hb.sorted h x.denom
  rw [balance_of_mem hd.sorted hx] at hbal
  have hpa : balance toInt a x.denom ≠ 0 := by
    have := hd.nonneg x hx
    have := balance_nonneg hb.nonneg x.denom
    omega
  exact exists_mem_of_balance_ne_zero hpa

/-- A difference with no negative amount is valid when the denoms of `a` all pass
`validateDenom`: each of its denoms has a positive balance in `a`. -/
theorem valid_safeSub (L : o.Lawful toInt bits) (hlow : ∀ d, DenomValid d → toLower d = d)
    (ha : NonNeg toInt a) (hb : NonNeg toInt b) (hd : ∀ x ∈ a, DenomValid x.denom)
    {diff : List (CoinOf A)} (h : safeSub o a b = some (diff, false)) :
    Valid toLower toInt diff := by
  have hn := nonNeg_of_safeSub L ha.sorted hb.sorted h
  have hpos : ∀ x ∈ diff, 0 < x.value toInt := by
    intro x hx
    have h0 := value_ne_zero_of_safeAdd L (safeAdd_of_safeSub h).1 x hx
    have h1 := hn.nonneg x hx
    omega
  refine valid_of_denomValid hlow hn.sorted hpos fun x hx => ?_
  obtain ⟨y, hy, hyx⟩ := denom_mem_of_safeSub L ha.sorted hb h x hx
  exact hyx ▸ hd y hy

/-! ## `AmountOf` -/

/-- At a valid denom, `AmountOf` of a sorted set reads its balance. -/
theorem amountOf_eq_some (L : o.Lawful toInt bits) {coins : List (CoinOf A)}
    (hs : Sorted CoinOf.denom coins) {d : String} (hd : DenomValid d) :
    ∃ x, amountOf coins d = some x ∧ toInt x = balance toInt coins d :=
  ⟨_, if_pos hd, by
    rw [bsearch_eq_lookup CoinOf.amount d coins hs, map_lookup CoinOf.amount toInt L.toInt_zero]
    rfl⟩

theorem amountOf_eq_none {coins : List (CoinOf A)} {d : String} (hd : ¬DenomValid d) :
    amountOf coins d = none :=
  if_neg hd

theorem amountOf_safeAdd (L : o.Lawful toInt bits) (ha : Sorted CoinOf.denom a)
    (hb : Sorted CoinOf.denom b) (h : safeAdd o a b = some c) (d : String) :
    amountOf c d = (amountOf a d).bind fun x => (amountOf b d).bind (o.add x) := by
  by_cases hd : DenomValid d
  · obtain ⟨x, hx, hxv⟩ := amountOf_eq_some L ha hd
    obtain ⟨y, hy, hyv⟩ := amountOf_eq_some L hb hd
    obtain ⟨z, hz, hzv⟩ := amountOf_eq_some L (sorted_safeAdd ha hb h) hd
    rw [hx, hy, hz, Option.bind_some, Option.bind_some, eq_comm, L.add_eq_some, hxv, hyv, hzv,
      balance_safeAdd L ha hb h]
    exact ⟨rfl, balance_safeAdd L ha hb h d ▸ balance_bound L c d⟩
  · rw [amountOf_eq_none hd, amountOf_eq_none hd, Option.bind_none]

theorem amountOf_safeSub (L : o.Lawful toInt bits) (ha : Sorted CoinOf.denom a)
    (hb : Sorted CoinOf.denom b) {diff : List (CoinOf A)} {hasNeg : Bool}
    (h : safeSub o a b = some (diff, hasNeg)) (d : String) :
    amountOf diff d = (amountOf a d).bind fun x => (amountOf b d).bind (o.sub x) := by
  have hsd := sorted_safeAdd ha (sorted_negative hb) (safeAdd_of_safeSub h).1
  by_cases hd : DenomValid d
  · obtain ⟨x, hx, hxv⟩ := amountOf_eq_some L ha hd
    obtain ⟨y, hy, hyv⟩ := amountOf_eq_some L hb hd
    obtain ⟨z, hz, hzv⟩ := amountOf_eq_some L hsd hd
    rw [hx, hy, hz, Option.bind_some, Option.bind_some, eq_comm, L.sub_eq_some, hxv, hyv, hzv,
      balance_safeSub L ha hb h]
    exact ⟨rfl, balance_safeSub L ha hb h d ▸ balance_bound L diff d⟩
  · rw [amountOf_eq_none hd, amountOf_eq_none hd, Option.bind_none]

/-! ## The laws of `Add` -/

theorem add_comm (L : o.Lawful toInt bits) (ha : Sorted CoinOf.denom a)
    (hb : Sorted CoinOf.denom b) : safeAdd o a b = safeAdd o b a := by
  cases h1 : safeAdd o a b with
  | none =>
    obtain ⟨d, hd⟩ := (safeAdd_eq_none_iff L ha hb).1 h1
    refine ((safeAdd_eq_none_iff L hb ha).2 ⟨d, ?_⟩).symm
    rwa [Int.add_comm]
  | some c =>
    cases h2 : safeAdd o b a with
    | none =>
      obtain ⟨d, hd⟩ := (safeAdd_eq_none_iff L hb ha).1 h2
      rw [Int.add_comm, ← (balance_safeAdd L ha hb h1 d)] at hd
      exact absurd (balance_bound L c d) (not_lt.2 hd)
    | some c' =>
      refine congrArg some (eq_of_balance_eq L (sorted_safeAdd ha hb h1) (sorted_safeAdd hb ha h2)
        (value_ne_zero_of_safeAdd L h1) (value_ne_zero_of_safeAdd L h2) fun d => ?_)
      rw [balance_safeAdd L ha hb h1, balance_safeAdd L hb ha h2, Int.add_comm]

/-- Adding three non-negative sets left to right fails exactly when a total overflows. -/
theorem safeAdd_bind_eq_none_iff (L : o.Lawful toInt bits) (ha : NonNeg toInt a)
    (hb : NonNeg toInt b) (hc : NonNeg toInt c) :
    (safeAdd o a b).bind (fun ab => safeAdd o ab c) = none ↔
      ∃ d, (2 : Int) ^ bits ≤ balance toInt a d + balance toInt b d + balance toInt c d := by
  have h0 := fun d => balance_nonneg ha.nonneg d
  have h1 := fun d => balance_nonneg hb.nonneg d
  have h2 := fun d => balance_nonneg hc.nonneg d
  cases h : safeAdd o a b with
  | none =>
    obtain ⟨d, hd⟩ := (safeAdd_eq_none_iff L ha.sorted hb.sorted).1 h
    rw [two_pow_le_natAbs_iff (add_nonneg (h0 d) (h1 d))] at hd
    exact iff_of_true rfl ⟨d, by linarith [h2 d]⟩
  | some ab =>
    have hab := nonNeg_safeAdd L ha hb h
    rw [Option.bind_some, safeAdd_eq_none_iff L hab.sorted hc.sorted]
    refine exists_congr fun d => ?_
    rw [balance_safeAdd L ha.sorted hb.sorted h,
      two_pow_le_natAbs_iff (add_nonneg (add_nonneg (h0 d) (h1 d)) (h2 d))]

theorem safeAdd_bind_eq_some (L : o.Lawful toInt bits) (ha : NonNeg toInt a)
    (hb : NonNeg toInt b) (hc : NonNeg toInt c) {x : List (CoinOf A)}
    (h : (safeAdd o a b).bind (fun ab => safeAdd o ab c) = some x) :
    Sorted CoinOf.denom x ∧ (∀ y ∈ x, y.value toInt ≠ 0) ∧
      ∀ d, balance toInt x d = balance toInt a d + balance toInt b d + balance toInt c d := by
  obtain ⟨ab, hab, hx⟩ := Option.bind_eq_some_iff.1 h
  have hn := nonNeg_safeAdd L ha hb hab
  refine ⟨sorted_safeAdd hn.sorted hc.sorted hx, value_ne_zero_of_safeAdd L hx, fun d => ?_⟩
  rw [balance_safeAdd L hn.sorted hc.sorted hx, balance_safeAdd L ha.sorted hb.sorted hab]

theorem add_assoc (L : o.Lawful toInt bits) (ha : NonNeg toInt a) (hb : NonNeg toInt b)
    (hc : NonNeg toInt c) :
    (safeAdd o a b).bind (fun ab => safeAdd o ab c) =
      (safeAdd o b c).bind (fun bc => safeAdd o a bc) := by
  -- put the right side in the left-to-right form, as `(b + c) + a`
  have hr : (safeAdd o b c).bind (fun bc => safeAdd o a bc) =
      (safeAdd o b c).bind (fun bc => safeAdd o bc a) := by
    cases h : safeAdd o b c with
    | none => rfl
    | some bc => exact add_comm L ha.sorted (sorted_safeAdd hb.sorted hc.sorted h)
  rw [hr]
  have hiff := (safeAdd_bind_eq_none_iff L ha hb hc).trans
    ((exists_congr fun d => by rw [Int.add_assoc, Int.add_comm]).trans
      (safeAdd_bind_eq_none_iff L hb hc ha).symm)
  cases h1 : (safeAdd o a b).bind (fun ab => safeAdd o ab c) with
  | none => exact (hiff.1 h1).symm
  | some x =>
    cases h2 : (safeAdd o b c).bind (fun bc => safeAdd o bc a) with
    | none => exact absurd (hiff.2 h2) (by rw [h1]; exact Option.some_ne_none x)
    | some y =>
      obtain ⟨hsx, hzx, hbx⟩ := safeAdd_bind_eq_some L ha hb hc h1
      obtain ⟨hsy, hzy, hby⟩ := safeAdd_bind_eq_some L hb hc ha h2
      refine congrArg some (eq_of_balance_eq L hsx hsy hzx hzy fun d => ?_)
      rw [hbx, hby]
      ring

/-- Subtracting what was added gives back the valid set: `a.Add(b).Sub(b) = a`. -/
theorem sub_safeAdd (L : o.Lawful toInt bits) (ha : Valid toLower toInt a) (hb : NonNeg toInt b)
    (h : safeAdd o a b = some c) : sub o c b = some a := by
  have hc := nonNeg_safeAdd L ha.nonNeg hb h
  obtain ⟨diff, hd⟩ := safeSub_eq_some L hc hb
  -- the difference has the balances of `a`, which are non-negative
  have hbal : ∀ d, balance toInt diff d = balance toInt a d := fun d => by
    rw [balance_safeSub L hc.sorted hb.sorted hd, balance_safeAdd L ha.sorted hb.sorted h]
    ring
  have hneg : isAnyNegative o diff = false := by
    rw [Bool.eq_false_iff, ne_eq, hasNeg_iff L hc.sorted hb.sorted hd]
    rintro ⟨d, hlt⟩
    rw [balance_safeAdd L ha.sorted hb.sorted h] at hlt
    linarith [balance_nonneg ha.nonNeg.nonneg d]
  have hs := (safeAdd_of_safeSub hd).1
  have hdiff : diff = a := eq_of_balance_eq L
    (sorted_safeAdd hc.sorted (sorted_negative hb.sorted) hs) ha.sorted
    (value_ne_zero_of_safeAdd L hs) ha.value_ne_zero hbal
  rw [sub, hd, Option.bind_eq_bind, Option.bind_some, hneg, hdiff]
  rfl

end Lawful

/-! ## Coin sets as finite maps -/

/-- The laws that make coin sets a finite map from denoms to non-negative amounts, on sets that
pass `IsValid`. -/
structure FiniteMapLaws [Zero A] (toLower : String → String) (o : AmountOps A) (toInt : A → Int)
    (bits : Nat) : Prop where
  /-- At a valid denom `AmountOf` reads the balance. -/
  amountOf_balance : ∀ coins d, isValid toLower o coins = true → DenomValid d →
    (amountOf coins d).map toInt = some (balance toInt coins d)
  /-- `Add` panics exactly when the two amounts of some denom overflow. -/
  add_eq_none : ∀ a b, isValid toLower o a = true → isValid toLower o b = true →
    (add o a b = none ↔ ∃ d, 2 ^ bits ≤ (balance toInt a d + balance toInt b d).natAbs)
  /-- Otherwise the sum passes `IsValid`. -/
  add_isValid : ∀ a b c, isValid toLower o a = true → isValid toLower o b = true →
    add o a b = some c → isValid toLower o c = true
  /-- and its amounts are the sums of the amounts. -/
  amountOf_add : ∀ a b c, isValid toLower o a = true → isValid toLower o b = true →
    add o a b = some c → ∀ d, amountOf c d = (amountOf a d).bind fun x => (amountOf b d).bind (o.add x)
  /-- `SafeSub` never panics on valid sets. -/
  safeSub_eq_some : ∀ a b, isValid toLower o a = true → isValid toLower o b = true →
    ∃ diff, safeSub o a b = some (diff, isAnyNegative o diff)
  /-- Its amounts are the differences of the amounts. -/
  amountOf_safeSub : ∀ a b diff hasNeg, isValid toLower o a = true →
    isValid toLower o b = true → safeSub o a b = some (diff, hasNeg) →
    ∀ d, amountOf diff d = (amountOf a d).bind fun x => (amountOf b d).bind (o.sub x)
  /-- It reports a negative amount exactly when some amount of `b` exceeds that of `a`. -/
  hasNeg_iff : ∀ a b diff hasNeg, isValid toLower o a = true → isValid toLower o b = true →
    safeSub o a b = some (diff, hasNeg) → (hasNeg = true ↔ ∃ d, balance toInt a d < balance toInt b d)
  /-- Without one, the difference passes `IsValid` when every denom of `a` passes
  `validateDenom`. -/
  safeSub_isValid : ∀ a b diff, isValid toLower o a = true → isValid toLower o b = true →
    (∀ x ∈ a, DenomValid x.denom) → safeSub o a b = some (diff, false) →
    isValid toLower o diff = true
  add_comm : ∀ a b, isValid toLower o a = true → isValid toLower o b = true →
    add o a b = add o b a
  add_assoc : ∀ a b c, isValid toLower o a = true → isValid toLower o b = true →
    isValid toLower o c = true →
    (add o a b).bind (fun ab => add o ab c) = (add o b c).bind (fun bc => add o a bc)
  sub_add : ∀ a b c, isValid toLower o a = true → isValid toLower o b = true →
    add o a b = some c → sub o c b = some a

/-- Over lawful amounts, and with a `toLower` that fixes valid denoms, coin sets satisfy the
finite-map laws. -/
theorem finiteMapLaws [Zero A] {toLower : String → String} {o : AmountOps A} {toInt : A → Int}
    {bits : Nat} (L : o.Lawful toInt bits) (hlow : ∀ d, DenomValid d → toLower d = d) :
    FiniteMapLaws toLower o toInt bits where
  amountOf_balance coins d hv hd := by
    obtain ⟨x, hx, hxv⟩ := amountOf_eq_some L ((isValid_iff L coins).1 hv).sorted hd
    rw [hx, Option.map_some, hxv]
  add_eq_none a b ha hb :=
    safeAdd_eq_none_iff L ((isValid_iff L a).1 ha).sorted ((isValid_iff L b).1 hb).sorted
  add_isValid a b c ha hb h :=
    (isValid_iff L c).2 (valid_safeAdd L hlow ((isValid_iff L a).1 ha) ((isValid_iff L b).1 hb) h)
  amountOf_add a b c ha hb h :=
    amountOf_safeAdd L ((isValid_iff L a).1 ha).sorted ((isValid_iff L b).1 hb).sorted h
  safeSub_eq_some a b ha hb :=
    safeSub_eq_some L ((isValid_iff L a).1 ha).nonNeg ((isValid_iff L b).1 hb).nonNeg
  amountOf_safeSub a b _ _ ha hb h :=
    amountOf_safeSub L ((isValid_iff L a).1 ha).sorted ((isValid_iff L b).1 hb).sorted h
  hasNeg_iff a b _ _ ha hb h :=
    hasNeg_iff L ((isValid_iff L a).1 ha).sorted ((isValid_iff L b).1 hb).sorted h
  safeSub_isValid a b diff ha hb hd h :=
    (isValid_iff L diff).2 (valid_safeSub L hlow ((isValid_iff L a).1 ha).nonNeg
      ((isValid_iff L b).1 hb).nonNeg hd h)
  add_comm a b ha hb :=
    add_comm L ((isValid_iff L a).1 ha).sorted ((isValid_iff L b).1 hb).sorted
  add_assoc a b c ha hb hc :=
    add_assoc L ((isValid_iff L a).1 ha).nonNeg ((isValid_iff L b).1 hb).nonNeg
      ((isValid_iff L c).1 hc).nonNeg
  sub_add a b c ha hb h :=
    sub_safeAdd L ((isValid_iff L a).1 ha) ((isValid_iff L b).1 hb).nonNeg h

end CoinSet

end Barkis
