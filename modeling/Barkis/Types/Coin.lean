import Barkis.Types.Int
import Barkis.Types.CoinSet

/-!
# `Coin` and `Coins`

`types/coin.go`: a `Coin` is a denom with an `sdk.Int` amount, `Coins` a list of them kept sorted
by denom. The operations are those of `CoinSet` at `SdkInt.amountOps`; `SdkInt.amountOps_lawful`
gives them the finite-map laws of `CoinSet.finiteMapLaws`.

`Coins.Add` is partial: two amounts of one denom whose sum needs more than 255 bits make
`Int.Add` panic (`add_overflow`).
-/

namespace Barkis

namespace SdkInt

instance : Zero SdkInt := ⟨zeroInt⟩

@[simp] theorem zero_i : (0 : SdkInt).i = 0 := rfl

/-- The `sdk.Int` operations a coin set calls. -/
def amountOps : AmountOps SdkInt where
  isZero := isZero
  isPositive := isPositive
  isNegative := isNegative
  add := add
  sub := sub
  neg := neg

theorem amountOps_lawful : amountOps.Lawful SdkInt.i maxBitLen where
  toInt_inj _ _ h := ext_i h
  bound x := x.bound
  toInt_zero := rfl
  isZero_iff := isZero_iff
  isPositive_iff := isPositive_iff
  isNegative_iff := isNegative_iff
  add_eq_some _ _ _ := add_eq_some
  add_eq_none _ _ := add_eq_none
  sub_eq_some _ _ _ := sub_eq_some
  toInt_neg _ := rfl

end SdkInt

/-- `Coin`. -/
abbrev Coin := CoinOf SdkInt

/-- `Coins`. -/
abbrev Coins := List Coin

namespace Coin

/-- `Coin.IsZero`. -/
def isZero (c : Coin) : Bool := CoinOf.isZero SdkInt.amountOps c

/-- `Coin.IsPositive`. -/
def isPositive (c : Coin) : Bool := CoinOf.isPositive SdkInt.amountOps c

/-- `Coin.IsNegative`. -/
def isNegative (c : Coin) : Bool := CoinOf.isNegative SdkInt.amountOps c

/-- `Coin.Add`. -/
def add (c d : Coin) : Option Coin := CoinOf.add SdkInt.amountOps c d

end Coin

namespace Coins

variable (toLower : String → String)

/-- `Coins.IsValid`. -/
def isValid (coins : Coins) : Bool := CoinSet.isValid toLower SdkInt.amountOps coins

/-- `Coins.safeAdd`. -/
def safeAdd (coins coinsB : Coins) : Option Coins := CoinSet.safeAdd SdkInt.amountOps coins coinsB

/-- `Coins.Add`. -/
def add (coins coinsB : Coins) : Option Coins := CoinSet.add SdkInt.amountOps coins coinsB

/-- `Coins.negative`. -/
def negative (coins : Coins) : Coins := CoinSet.negative SdkInt.amountOps coins

/-- `Coins.IsAnyNegative`. -/
def isAnyNegative (coins : Coins) : Bool := CoinSet.isAnyNegative SdkInt.amountOps coins

/-- `Coins.SafeSub`. -/
def safeSub (coins coinsB : Coins) : Option (Coins × Bool) :=
  CoinSet.safeSub SdkInt.amountOps coins coinsB

/-- `Coins.Sub`. -/
def sub (coins coinsB : Coins) : Option Coins := CoinSet.sub SdkInt.amountOps coins coinsB

/-- `Coins.AmountOf`. -/
def amountOf (coins : Coins) (denom : String) : Option SdkInt := CoinSet.amountOf coins denom

/-- The amount of each denom, as an integer. -/
def balance (coins : Coins) (denom : String) : Int := CoinSet.balance SdkInt.i coins denom

/-- `Coins.IsAllPositive`. -/
def isAllPositive (coins : Coins) : Bool := !coins.isEmpty && coins.all Coin.isPositive

/-- The loop of `IsAllGTE`: it stops at the first coin of `coinsB` that `coins` holds less of. -/
def allGTE (coins : Coins) : Coins → Option Bool
  | [] => some true
  | coinB :: rest =>
    (amountOf coins coinB.denom).bind fun amount =>
      if amount.i < coinB.amount.i then some false else allGTE coins rest

/-- `Coins.IsAllGTE`; `AmountOf` panics on an invalid denom. -/
def isAllGTE (coins coinsB : Coins) : Option Bool :=
  if coinsB.isEmpty then some true else if coins.isEmpty then some false else allGTE coins coinsB

/-- `Coins.IsAllLTE`. -/
def isAllLTE (coins coinsB : Coins) : Option Bool := isAllGTE coinsB coins

/-- The loop of `IsAnyGTE`: it stops at the first coin held at least at a non-zero amount of
`coinsB`. -/
def anyGTE (coinsB : Coins) : Coins → Option Bool
  | [] => some false
  | coin :: rest =>
    (amountOf coinsB coin.denom).bind fun amt =>
      if amt.i ≤ coin.amount.i && !amt.isZero then some true else anyGTE coinsB rest

/-- `Coins.IsAnyGTE`. -/
def isAnyGTE (coins coinsB : Coins) : Option Bool :=
  if coinsB.isEmpty then some false else anyGTE coinsB coins

/-- The loop of `IsAnyGT`: it stops at the first coin held at more than a non-zero amount of
`coinsB`. -/
def anyGT (coinsB : Coins) : Coins → Option Bool
  | [] => some false
  | coin :: rest =>
    (amountOf coinsB coin.denom).bind fun amt =>
      if amt.i < coin.amount.i && !amt.isZero then some true else anyGT coinsB rest

/-- `Coins.IsAnyGT`: a denom that `coinsB` holds none of is not compared. -/
def isAnyGT (coins coinsB : Coins) : Option Bool :=
  if coinsB.isEmpty then some false else anyGT coinsB coins

/-- `Coins.IsZero`. -/
def isZero (coins : Coins) : Bool := coins.all Coin.isZero

/-- `Coins.Sort`, by denom. -/
def sort (coins : Coins) : Coins := coins.mergeSort fun a b => decide (a.denom ≤ b.denom)

/-- The loop of `Coins.IsEqual` over two sets of one length: the first amounts that differ give
`false`, and `Coin.IsEqual` panics on two denoms that differ. -/
def isEqualSorted : Coins → Coins → Option Bool
  | c :: cs, d :: ds =>
    if c.denom = d.denom then (if c.amount.i = d.amount.i then isEqualSorted cs ds else some false)
    else none
  | _, _ => some true

/-- `Coins.IsEqual`. -/
def isEqual (coins coinsB : Coins) : Option Bool :=
  if coins.length = coinsB.length then isEqualSorted (sort coins) (sort coinsB) else some false

/-! ### The laws of `CoinSet` at `sdk.Int` -/

open SortedMerge

variable {toLower} {a b c : Coins}

@[simp] theorem balance_nil (d : String) : balance [] d = 0 := rfl

theorem balance_cons (c : Coin) (l : Coins) (d : String) :
    balance (c :: l) d = if c.denom = d then c.amount.i else balance l d :=
  lookup_cons _ _ _ _ _

theorem balance_singleton (c : Coin) (d : String) :
    balance [c] d = if c.denom = d then c.amount.i else 0 :=
  balance_cons c [] d

/-- A sorted set holds at a denom the sum of what its coins hold there. -/
theorem balance_eq_sum : ∀ {l : Coins}, Sorted CoinOf.denom l → ∀ d,
    balance l d = (l.map fun c => balance [c] d).sum
  | [], _, _ => rfl
  | c :: l, h, d => by
    rw [List.map_cons, List.sum_cons, ← balance_eq_sum h.tail d, balance_cons, balance_cons,
      balance_nil]
    by_cases hc : c.denom = d
    · -- the later coins are of larger denoms, so `l` holds none of `d`
      have hl : balance l d = 0 := lookup_eq_zero _ _ fun b hb => hc ▸ (h.head_lt hb).ne'
      rw [if_pos hc, if_pos hc, hl, add_zero]
    · rw [if_neg hc, if_neg hc, zero_add]

theorem sorted_of_isValid (h : isValid toLower c = true) : Sorted CoinOf.denom c :=
  ((CoinSet.isValid_iff SdkInt.amountOps_lawful c).1 h).sorted

theorem sorted_add (ha : Sorted CoinOf.denom a) (hb : Sorted CoinOf.denom b)
    (h : add a b = some c) : Sorted CoinOf.denom c :=
  CoinSet.sorted_safeAdd ha hb h

theorem balance_add (ha : Sorted CoinOf.denom a) (hb : Sorted CoinOf.denom b)
    (h : add a b = some c) (d : String) : balance c d = balance a d + balance b d :=
  CoinSet.balance_safeAdd SdkInt.amountOps_lawful ha hb h d

/-- `Sort` leaves a sorted set as it is. -/
theorem sort_of_sorted (h : Sorted CoinOf.denom c) : sort c = c :=
  List.mergeSort_of_pairwise (h.imp fun hlt => decide_eq_true (le_of_lt hlt))

theorem eq_of_isEqualSorted : ∀ {a b : Coins}, a.length = b.length → isEqualSorted a b = some true →
    a = b
  | [], [], _, _ => rfl
  | c :: cs, d :: ds, hl, h => by
    rw [isEqualSorted] at h
    by_cases hd : c.denom = d.denom
    · by_cases ha : c.amount.i = d.amount.i
      · rw [if_pos hd, if_pos ha] at h
        have hc : c = d := by
          cases c
          cases d
          simp only at hd ha
          rw [hd, SdkInt.ext_i ha]
        rw [hc, eq_of_isEqualSorted (by simpa using hl) h]
      · rw [if_pos hd, if_neg ha] at h
        cases h
    · rw [if_neg hd] at h
      cases h

/-- Two sorted sets that `IsEqual` finds equal are equal. -/
theorem eq_of_isEqual (ha : Sorted CoinOf.denom a) (hb : Sorted CoinOf.denom b)
    (h : isEqual a b = some true) : a = b := by
  unfold isEqual at h
  by_cases hl : a.length = b.length
  · rw [if_pos hl, sort_of_sorted ha, sort_of_sorted hb] at h
    exact eq_of_isEqualSorted hl h
  · rw [if_neg hl] at h
    cases h

theorem isEqualSorted_self : ∀ a : Coins, isEqualSorted a a = some true
  | [] => rfl
  | c :: cs => by rw [isEqualSorted, if_pos rfl, if_pos rfl, isEqualSorted_self cs]

/-- The pairwise loop returns whenever the two sets name the same denoms in the same order. -/
theorem isEqualSorted_isSome : ∀ {a b : Coins}, a.map CoinOf.denom = b.map CoinOf.denom →
    (isEqualSorted a b).isSome
  | [], [], _ => rfl
  | c :: cs, d :: ds, h => by
    simp only [List.map_cons, List.cons.injEq] at h
    rw [isEqualSorted, if_pos h.1]
    split
    · exact isEqualSorted_isSome h.2
    · rfl
  | [], _ :: _, h | _ :: _, [], h => by simp at h

/-- `IsEqual` of two valid sets answers, whenever it returns, whether they hold the same amount of
every denom; it returns when their lengths differ or when they name the same denoms. Two valid
sets of one length and different denoms can make `Coin.IsEqual` panic, as `TestEqualCoins`
requires (`isEqual_panics_on_denoms`). -/
theorem isEqual_decides_balances (ha : isValid toLower a = true) (hb : isValid toLower b = true) :
    (∀ r, isEqual a b = some r → (r = true ↔ ∀ d, balance a d = balance b d)) ∧
      (a.length ≠ b.length ∨ a.map CoinOf.denom = b.map CoinOf.denom → (isEqual a b).isSome) := by
  have hva := (CoinSet.isValid_iff SdkInt.amountOps_lawful a).1 ha
  have hvb := (CoinSet.isValid_iff SdkInt.amountOps_lawful b).1 hb
  refine ⟨fun r hr => ⟨?_, fun hbal => ?_⟩, ?_⟩
  · rintro rfl d
    rw [eq_of_isEqual hva.sorted hvb.sorted hr]
  · -- sets without zeros that agree on every balance are one set, which `IsEqual` finds equal
    have hab : a = b := CoinSet.eq_of_balance_eq SdkInt.amountOps_lawful hva.sorted hvb.sorted
      hva.value_ne_zero hvb.value_ne_zero hbal
    subst hab
    rw [isEqual, if_pos rfl, sort_of_sorted hva.sorted, isEqualSorted_self] at hr
    exact (Option.some.inj hr).symm
  · rintro (hl | hd)
    · rw [isEqual, if_neg hl]
      rfl
    · have hl : a.length = b.length := by
        simpa using congrArg List.length hd
      rw [isEqual, if_pos hl, sort_of_sorted hva.sorted, sort_of_sorted hvb.sorted]
      exact isEqualSorted_isSome hd

/-- `[1atom, 2stake]` and `[1atom, 3stake]`: `IsEqual` returns `false`, and the sets differ at
`"stake"`. -/
theorem isEqual_decides_balances_stake :
    isValid id [⟨"atom", ⟨1, by decide⟩⟩, ⟨"stake", ⟨2, by decide⟩⟩] = true ∧
      isValid id [⟨"atom", ⟨1, by decide⟩⟩, ⟨"stake", ⟨3, by decide⟩⟩] = true ∧
      ((∀ r, isEqual [⟨"atom", ⟨1, by decide⟩⟩, ⟨"stake", ⟨2, by decide⟩⟩]
          [⟨"atom", ⟨1, by decide⟩⟩, ⟨"stake", ⟨3, by decide⟩⟩] = some r →
        (r = true ↔ ∀ d, balance [⟨"atom", ⟨1, by decide⟩⟩, ⟨"stake", ⟨2, by decide⟩⟩] d =
          balance [⟨"atom", ⟨1, by decide⟩⟩, ⟨"stake", ⟨3, by decide⟩⟩] d)) ∧
        ((([⟨"atom", ⟨1, by decide⟩⟩, ⟨"stake", ⟨2, by decide⟩⟩] : Coins).length ≠
            ([⟨"atom", ⟨1, by decide⟩⟩, ⟨"stake", ⟨3, by decide⟩⟩] : Coins).length ∨
          ([⟨"atom", ⟨1, by decide⟩⟩, ⟨"stake", ⟨2, by decide⟩⟩] : Coins).map CoinOf.denom =
            ([⟨"atom", ⟨1, by decide⟩⟩, ⟨"stake", ⟨3, by decide⟩⟩] : Coins).map CoinOf.denom) →
          (isEqual [⟨"atom", ⟨1, by decide⟩⟩, ⟨"stake", ⟨2, by decide⟩⟩]
            [⟨"atom", ⟨1, by decide⟩⟩, ⟨"stake", ⟨3, by decide⟩⟩]).isSome)) :=
  have ha : isValid id [⟨"atom", ⟨1, by decide⟩⟩, ⟨"stake", ⟨2, by decide⟩⟩] = true := by decide
  have hb : isValid id [⟨"atom", ⟨1, by decide⟩⟩, ⟨"stake", ⟨3, by decide⟩⟩] = true := by decide
  ⟨ha, hb, isEqual_decides_balances ha hb⟩

/-- `Sub` returns the difference that `SafeSub` finds without a negative amount. -/
theorem sub_eq_some_iff : sub a b = some c ↔ safeSub a b = some (c, false) := by
  simp only [sub, CoinSet.sub, safeSub, Option.bind_eq_bind, Option.bind_eq_some_iff]
  constructor
  · rintro ⟨⟨diff, hasNeg⟩, h, hr⟩
    cases hasNeg
    · cases hr
      exact h
    · cases hr
  · intro h
    exact ⟨_, h, rfl⟩

theorem balance_safeSub {hasNeg : Bool} (ha : Sorted CoinOf.denom a) (hb : Sorted CoinOf.denom b)
    (h : safeSub a b = some (c, hasNeg)) (d : String) : balance c d = balance a d - balance b d :=
  CoinSet.balance_safeSub SdkInt.amountOps_lawful ha hb h d

theorem sorted_safeSub {hasNeg : Bool} (ha : Sorted CoinOf.denom a) (hb : Sorted CoinOf.denom b)
    (h : safeSub a b = some (c, hasNeg)) : Sorted CoinOf.denom c :=
  CoinSet.sorted_safeAdd ha (CoinSet.sorted_negative hb) (CoinSet.safeAdd_of_safeSub h).1

theorem sorted_sub (ha : Sorted CoinOf.denom a) (hb : Sorted CoinOf.denom b)
    (h : sub a b = some c) : Sorted CoinOf.denom c :=
  sorted_safeSub ha hb (sub_eq_some_iff.1 h)

theorem balance_sub (ha : Sorted CoinOf.denom a) (hb : Sorted CoinOf.denom b)
    (h : sub a b = some c) (d : String) : balance c d = balance a d - balance b d :=
  CoinSet.balance_safeSub SdkInt.amountOps_lawful ha hb (sub_eq_some_iff.1 h) d

/-! ### Comparing valid sets

`IsValid` runs `validateDenom` on the first denom only and asks the others to be lower case,
while `AmountOf` panics on any denom `validateDenom` rejects. On sets whose every denom passes
it, the comparisons read the balances. -/

/-- Every denom of the set passes `validateDenom`. -/
def DenomsValid (coins : Coins) : Prop := ∀ c ∈ coins, DenomValid c.denom

instance (coins : Coins) : Decidable (DenomsValid coins) :=
  inferInstanceAs (Decidable (∀ c ∈ coins, DenomValid c.denom))

theorem DenomsValid.of_balance_ne {a : Coins} (h : DenomsValid a) {d : String}
    (hd : balance a d ≠ 0) : DenomValid d := by
  obtain ⟨c, hc, hcd⟩ := CoinSet.exists_mem_of_balance_ne_zero hd
  exact hcd ▸ h c hc

/-- A valid set holds a positive amount of each of its denoms, so its balances name them all. -/
theorem denomsValid_of_balance {a : Coins} (ha : CoinSet.Valid toLower SdkInt.i a)
    (h : ∀ d, balance a d ≠ 0 → DenomValid d) : DenomsValid a := fun c hc =>
  h c.denom (by rw [balance, CoinSet.balance_of_mem ha.sorted hc]; exact (ha.pos c hc).ne')

theorem amountOf_of_mem {a : Coins} (ha : Sorted CoinOf.denom a) {d : String}
    (hd : DenomValid d) : ∃ x : SdkInt, amountOf a d = some x ∧ x.i = balance a d :=
  CoinSet.amountOf_eq_some SdkInt.amountOps_lawful ha hd

/-- What `AmountOf` returns, when it does not panic, is the balance. -/
theorem amountOf_eq_balance {a : Coins} (ha : Sorted CoinOf.denom a) {d : String} {x : SdkInt}
    (h : amountOf a d = some x) : DenomValid d ∧ x.i = balance a d := by
  by_cases hd : DenomValid d
  · obtain ⟨y, hy, hyi⟩ := amountOf_of_mem ha hd
    rw [hy, Option.some.injEq] at h
    exact ⟨hd, h ▸ hyi⟩
  · rw [amountOf, CoinSet.amountOf_eq_none hd] at h
    cases h

theorem allGTE_eq (ha : Sorted CoinOf.denom a) : ∀ {b : Coins}, DenomsValid b →
    allGTE a b = some (b.all fun c => decide (c.amount.i ≤ balance a c.denom))
  | [], _ => rfl
  | c :: rest, hb => by
    obtain ⟨x, hx, hxv⟩ := amountOf_of_mem ha (hb c List.mem_cons_self)
    have ih := allGTE_eq ha fun y hy => hb y (List.mem_cons_of_mem _ hy)
    rw [allGTE, hx, Option.bind_some, List.all_cons, hxv]
    by_cases h : c.amount.i ≤ balance a c.denom
    · rw [if_neg (not_lt.2 h), ih, decide_eq_true h, Bool.true_and]
    · rw [if_pos (not_le.1 h), decide_eq_false h, Bool.false_and]

/-- Each coin of `b` under the balance of `a` is `b` under `a` at every denom. -/
theorem all_le_iff (ha : CoinSet.NonNeg SdkInt.i a) (hb : Sorted CoinOf.denom b) :
    (b.all fun c => decide (c.amount.i ≤ balance a c.denom)) = true ↔
      ∀ d, balance b d ≤ balance a d := by
  rw [List.all_eq_true]
  constructor
  · intro h d
    by_cases hz : balance b d = 0
    · rw [hz]
      exact CoinSet.balance_nonneg ha.nonneg d
    · obtain ⟨c, hc, rfl⟩ := CoinSet.exists_mem_of_balance_ne_zero hz
      have hbc : balance b c.denom = c.amount.i := CoinSet.balance_of_mem hb hc
      rw [hbc]
      exact of_decide_eq_true (h c hc)
  · intro h c hc
    have hbc : balance b c.denom = c.amount.i := CoinSet.balance_of_mem hb hc
    exact decide_eq_true (hbc ▸ h c.denom)

theorem isAllGTE_eq (ha : CoinSet.Valid toLower SdkInt.i a) (hb : CoinSet.Valid toLower SdkInt.i b)
    (hdb : DenomsValid b) :
    isAllGTE a b = some (b.all fun c => decide (c.amount.i ≤ balance a c.denom)) := by
  unfold isAllGTE
  cases b with
  | nil => rfl
  | cons c rest =>
    cases a with
    | nil =>
      -- nothing is held, and `b`'s first coin is positive
      have hc : ¬c.amount.i ≤ balance [] c.denom := by
        rw [balance_nil]
        exact not_le.2 (hb.pos c List.mem_cons_self)
      rw [if_neg (by simp), if_pos List.isEmpty_nil, List.all_cons, decide_eq_false hc, Bool.false_and]
    | cons x xs =>
      rw [if_neg (by simp), if_neg (by simp)]
      exact allGTE_eq ha.sorted hdb

theorem anyGTE_eq (hb : Sorted CoinOf.denom b) : ∀ {a : Coins}, DenomsValid a →
    anyGTE b a = some (a.any fun c =>
      decide (balance b c.denom ≤ c.amount.i) && decide (balance b c.denom ≠ 0))
  | [], _ => rfl
  | c :: rest, ha => by
    obtain ⟨x, hx, hxv⟩ := amountOf_of_mem hb (ha c List.mem_cons_self)
    have ih := anyGTE_eq hb fun y hy => ha y (List.mem_cons_of_mem _ hy)
    have hz : (!x.isZero) = decide (balance b c.denom ≠ 0) := by
      rw [← hxv]
      by_cases h0 : x.i = 0 <;> simp [SdkInt.isZero, h0]
    rw [anyGTE, hx, Option.bind_some, List.any_cons, hz, hxv]
    by_cases h : decide (balance b c.denom ≤ c.amount.i) && decide (balance b c.denom ≠ 0)
    · rw [if_pos h, h, Bool.true_or]
    · rw [if_neg h, ih, Bool.eq_false_iff.2 h, Bool.false_or]

theorem isAnyGTE_eq (hb : Sorted CoinOf.denom b) (hda : DenomsValid a) :
    isAnyGTE a b = some (a.any fun c =>
      decide (balance b c.denom ≤ c.amount.i) && decide (balance b c.denom ≠ 0)) := by
  unfold isAnyGTE
  cases b with
  | nil =>
    -- an empty `b` holds nothing, so no coin is compared
    rw [if_pos List.isEmpty_nil]
    simp
  | cons y ys =>
    rw [if_neg (by simp)]
    exact anyGTE_eq hb hda

/-! ### Sets of one denom -/

theorem balance_of_denom_ne {d d' : String} (ha : ∀ c ∈ a, c.denom = d) (hne : d' ≠ d) :
    balance a d' = 0 :=
  lookup_eq_zero _ _ fun c hc => (ha c hc).trans_ne (Ne.symm hne)

/-- On valid sets of one valid denom `d`, `IsAllGTE` compares the balances at `d`. -/
theorem isAllGTE_of_denom {d : String} (hd : DenomValid d) (ha : CoinSet.Valid toLower SdkInt.i a)
    (hb : CoinSet.Valid toLower SdkInt.i b) (had : ∀ c ∈ a, c.denom = d)
    (hbd : ∀ c ∈ b, c.denom = d) : isAllGTE a b = some (decide (balance b d ≤ balance a d)) := by
  rw [isAllGTE_eq ha hb fun c hc => hbd c hc ▸ hd]
  congr 1
  rw [Bool.eq_iff_iff, all_le_iff ha.nonNeg hb.sorted, decide_eq_true_iff]
  constructor
  · intro h
    exact h d
  · intro h d'
    by_cases hd' : d' = d
    · rw [hd']
      exact h
    · rw [balance_of_denom_ne hbd hd', balance_of_denom_ne had hd']

/-- On valid sets of one valid denom `d`, `Sub` of no more than `a` holds returns a valid set of
that denom with the difference. -/
theorem sub_of_denom {d : String} (hlow : ∀ d, DenomValid d → toLower d = d) (hd : DenomValid d)
    (ha : CoinSet.Valid toLower SdkInt.i a) (hb : CoinSet.Valid toLower SdkInt.i b)
    (had : ∀ c ∈ a, c.denom = d) (hbd : ∀ c ∈ b, c.denom = d) (hle : balance b d ≤ balance a d) :
    ∃ c, sub a b = some c ∧ CoinSet.Valid toLower SdkInt.i c ∧ (∀ x ∈ c, x.denom = d) ∧
      ∀ d', balance c d' = balance a d' - balance b d' := by
  have L := SdkInt.amountOps_lawful
  obtain ⟨c, hc, -, hbal⟩ := CoinSet.sub_spec L ha.nonNeg hb.nonNeg fun d' => by
    by_cases hd' : d' = d
    · rw [hd']
      exact hle
    · rw [show CoinSet.balance SdkInt.i b d' = 0 from balance_of_denom_ne hbd hd',
        show CoinSet.balance SdkInt.i a d' = 0 from balance_of_denom_ne had hd']
  have hs := sub_eq_some_iff.1 hc
  refine ⟨c, hc, CoinSet.valid_safeSub L hlow ha.nonNeg hb.nonNeg (fun x hx => had x hx ▸ hd) hs,
    fun x hx => ?_, hbal⟩
  obtain ⟨y, hy, hyx⟩ := CoinSet.denom_mem_of_safeSub L ha.sorted hb.nonNeg hs x hx
  rw [← hyx]
  exact had y hy

/-- On valid sets whose denoms all pass `validateDenom`, `IsAllGTE` and `IsAllLTE` compare the
balances at every denom, and `IsAnyGTE` finds a denom of `a` that `b` holds some of and `a` at
least as much. -/
theorem coins_compare_balances (ha : isValid toLower a = true) (hb : isValid toLower b = true)
    (hda : DenomsValid a) (hdb : DenomsValid b) :
    (∃ r, isAllGTE a b = some r ∧ (r = true ↔ ∀ d, balance b d ≤ balance a d)) ∧
      (∃ r, isAllLTE a b = some r ∧ (r = true ↔ ∀ d, balance a d ≤ balance b d)) ∧
      (∃ r, isAnyGTE a b = some r ∧
        (r = true ↔ ∃ c ∈ a, 0 < balance b c.denom ∧ balance b c.denom ≤ balance a c.denom)) := by
  have va := (CoinSet.isValid_iff SdkInt.amountOps_lawful a).1 ha
  have vb := (CoinSet.isValid_iff SdkInt.amountOps_lawful b).1 hb
  refine ⟨⟨_, isAllGTE_eq va vb hdb, all_le_iff va.nonNeg vb.sorted⟩,
    ⟨_, isAllGTE_eq vb va hda, all_le_iff vb.nonNeg va.sorted⟩,
    ⟨_, isAnyGTE_eq vb.sorted hda, ?_⟩⟩
  rw [List.any_eq_true]
  constructor
  · rintro ⟨c, hc, h⟩
    have hac : balance a c.denom = c.amount.i := CoinSet.balance_of_mem va.sorted hc
    simp only [Bool.and_eq_true, decide_eq_true_eq] at h
    have h0 := CoinSet.balance_nonneg vb.nonNeg.nonneg c.denom
    exact ⟨c, hc, lt_of_le_of_ne h0 (Ne.symm h.2), hac ▸ h.1⟩
  · rintro ⟨c, hc, h0, hle⟩
    have hac : balance a c.denom = c.amount.i := CoinSet.balance_of_mem va.sorted hc
    refine ⟨c, hc, ?_⟩
    simp only [Bool.and_eq_true, decide_eq_true_eq]
    exact ⟨hac ▸ hle, h0.ne'⟩

/-- `[2stake]`. -/
def twoStake : Coins := [⟨"stake", ⟨2, by decide⟩⟩]

/-- `[1stake]`. -/
def oneStake : Coins := [⟨"stake", SdkInt.oneInt⟩]

theorem coins_compare_balances_stake :
    isValid id twoStake = true ∧ isValid id oneStake = true ∧ DenomsValid twoStake ∧
      DenomsValid oneStake ∧
      (∃ r, isAllGTE twoStake oneStake = some r ∧
        (r = true ↔ ∀ d, balance oneStake d ≤ balance twoStake d)) ∧
      (∃ r, isAllLTE twoStake oneStake = some r ∧
        (r = true ↔ ∀ d, balance twoStake d ≤ balance oneStake d)) ∧
      (∃ r, isAnyGTE twoStake oneStake = some r ∧
        (r = true ↔ ∃ c ∈ twoStake, 0 < balance oneStake c.denom ∧
          balance oneStake c.denom ≤ balance twoStake c.denom)) :=
  have ha : isValid id twoStake = true := by decide
  have hb : isValid id oneStake = true := by decide
  have hda : DenomsValid twoStake := by decide
  have hdb : DenomsValid oneStake := by decide
  ⟨ha, hb, hda, hdb, coins_compare_balances ha hb hda hdb⟩

end Coins

/-- `removeZeroCoins`. -/
def removeZeroCoins (coins : Coins) : Coins := CoinSet.removeZeroCoins SdkInt.amountOps coins

/-- `NewCoin`: panics on an invalid denom or a negative amount. -/
def newCoin (denom : String) (amount : SdkInt) : Option Coin :=
  if (validateDenom denom).isOk && !amount.isNegative then some ⟨denom, amount⟩ else none

theorem newCoin_eq_some {denom : String} {amount : SdkInt} {coin : Coin}
    (h : newCoin denom amount = some coin) : coin = ⟨denom, amount⟩ := by
  unfold newCoin at h
  split_ifs at h
  cases h
  rfl

/-- `NewCoins`: zero coins are dropped and the rest sorted; a duplicate denom or an invalid set
panics. -/
def newCoins (toLower : String → String) (coins : Coins) : Option Coins :=
  let coins := removeZeroCoins coins
  if coins.isEmpty then some []
  else
    let coins := Coins.sort coins
    if Coins.isValid toLower coins then some coins else none

/-- `NewCoins(NewCoin(denom, amount))` of a valid denom and a non-negative amount: the coin, or no
coin for a zero amount. -/
theorem newCoins_newCoin {toLower : String → String} {denom : String} {amount : SdkInt}
    (hd : DenomValid denom) (ha : 0 ≤ amount.i) :
    ∃ coins, ((newCoin denom amount).bind fun coin => newCoins toLower [coin]) = some coins ∧
      CoinSet.Valid toLower SdkInt.i coins ∧ (∀ c ∈ coins, c.denom = denom) ∧
      ∀ d, Coins.balance coins d = if denom = d then amount.i else 0 := by
  have hnew : newCoin denom amount = some ⟨denom, amount⟩ := by
    rw [newCoin, if_pos]
    simp only [Bool.and_eq_true, Bool.not_eq_true']
    exact ⟨hd, by simp [SdkInt.isNegative]; omega⟩
  rw [hnew, Option.bind_some, newCoins]
  by_cases h0 : amount.i = 0
  · -- a zero amount leaves no coin
    have hz : removeZeroCoins [⟨denom, amount⟩] = [] := by
      simp [removeZeroCoins, CoinSet.removeZeroCoins, SortedMerge.removeZero, CoinOf.isZero,
        SdkInt.amountOps, SdkInt.isZero, h0]
    refine ⟨[], by simp [hz], ⟨List.Pairwise.nil, by simp, by simp, by simp⟩, by simp, fun d => ?_⟩
    simp [h0]
  · have hz : removeZeroCoins [⟨denom, amount⟩] = [⟨denom, amount⟩] := by
      simp [removeZeroCoins, CoinSet.removeZeroCoins, SortedMerge.removeZero, CoinOf.isZero,
        SdkInt.amountOps, SdkInt.isZero, h0]
    have hvs : Coins.isValid toLower [⟨denom, amount⟩] = true := by
      rw [Coins.isValid, CoinSet.isValid]
      exact (CoinSet.validSingle_iff SdkInt.amountOps_lawful _).2 ⟨hd, by
        show 0 < amount.i
        omega⟩
    have hv := (CoinSet.isValid_iff SdkInt.amountOps_lawful _).1 hvs
    refine ⟨[⟨denom, amount⟩], ?_, hv, by simp, fun d => Coins.balance_cons _ _ d⟩
    simp only [hz, List.isEmpty_cons, Bool.false_eq_true, if_false,
      Coins.sort_of_sorted hv.sorted, hvs, if_true]

/-- `[5aaa]` is at least `[1aaa, 1b]` in `"aaa"`, and `IsValid` accepts `"b"` after `"aaa"`, but
`AmountOf("b")` panics: `IsAllGTE` does not return. -/
theorem isAllGTE_panics_on_later_denom :
    Coins.isValid id [⟨"aaa", ⟨5, by decide⟩⟩] = true ∧
      Coins.isValid id [⟨"aaa", ⟨1, by decide⟩⟩, ⟨"b", ⟨1, by decide⟩⟩] = true ∧
      Coins.isAllGTE [⟨"aaa", ⟨5, by decide⟩⟩] [⟨"aaa", ⟨1, by decide⟩⟩, ⟨"b", ⟨1, by decide⟩⟩] =
        none := by
  decide +kernel

/-- Two valid sets of one coin each, of different denoms: `Coin.IsEqual` panics on the pair
instead of `IsEqual` returning `false`. -/
theorem isEqual_panics_on_denoms :
    Coins.isValid id [⟨"atom", ⟨1, by decide⟩⟩] = true ∧
      Coins.isValid id [⟨"stake", ⟨1, by decide⟩⟩] = true ∧
      Coins.isEqual [⟨"atom", ⟨1, by decide⟩⟩] [⟨"stake", ⟨1, by decide⟩⟩] = none := by
  refine ⟨by decide, by decide, ?_⟩
  simp [Coins.isEqual, Coins.sort, Coins.isEqualSorted]

/-- A coin of `2 ^ 254` units of `"aaa"`, the largest power of two `Coins` accept. -/
def bigCoins : Coins := [⟨"aaa", ⟨2 ^ 254, by decide⟩⟩]

/-- Two valid coin sets whose sum overflows: `Add` panics instead of returning a valid set. -/
theorem add_overflow :
    Coins.isValid id bigCoins = true ∧ Coins.add bigCoins bigCoins = none := by
  refine ⟨by decide, ?_⟩
  rw [Coins.add, CoinSet.add, bigCoins, CoinSet.safeAdd_eq_none_iff SdkInt.amountOps_lawful
    (List.pairwise_singleton _ _) (List.pairwise_singleton _ _)]
  exact ⟨"aaa", by decide⟩

end Barkis
