import Barkis.Lib.KVStore

/-!
# `memIterator` and `cacheMergeIterator`

`store/cachekv/memiterator.go` and `store/cachekv/mergeiterator.go`. An iterator is modelled by
what is left of it, in iteration order: the parent's items, and the cache's items whose value
`none` is a delete (Go's `nil`). `compare` is `bytes.Compare`, negated when descending
(`iterCompare`).

* `newMemIterator`: the in-domain run of the ascending `sortedCache`, read from the back when
  descending.
* `valid`, `key`, `value`, `next`: the methods of `cacheMergeIterator`, each starting with
  `skipUntilExistsOrInvalid`; `toList` is what a caller reads with
  `for ; it.Valid(); it.Next() { it.Key(); it.Value() }`.
* `toList_eq_overlay`: the caller reads `overlay`, the parent's items with the cache's shadowing
  them and its deletes left out; `lists_overlay` is what that means for two listings.
-/

namespace Barkis.CacheKV

open KVStore

variable {K V : Type} [LinearOrder K]

/-- `cacheMergeIterator.compare`: `bytes.Compare`, negated when descending. -/
def iterCompare (ascending : Bool) (a b : K) : Ordering :=
  if ascending then compare a b else compare b a

theorem iterCompare_eq_lt {asc : Bool} {a b : K} : iterCompare asc a b = .lt ↔ Before asc a b := by
  cases asc <;> simp [iterCompare, Before, compare_lt_iff_lt]

theorem iterCompare_eq_eq {asc : Bool} {a b : K} : iterCompare asc a b = .eq ↔ a = b := by
  cases asc
  · exact compare_eq_iff_eq.trans eq_comm
  · exact compare_eq_iff_eq

theorem iterCompare_eq_gt {asc : Bool} {a b : K} : iterCompare asc a b = .gt ↔ Before asc b a := by
  cases asc <;> simp [iterCompare, Before, compare_gt_iff_gt]

/-! ## Listings in iteration order -/

section SortedBy

variable {asc : Bool} {W : Type}

/-- Sorted in iteration order, by key. -/
def SortedBy (asc : Bool) (l : List (K × W)) : Prop := l.Pairwise fun a b => Before asc a.1 b.1

theorem SortedBy.tail {x : K × W} {l : List (K × W)} (h : SortedBy asc (x :: l)) : SortedBy asc l :=
  (List.pairwise_cons.1 h).2

theorem SortedBy.before {x y : K × W} {l : List (K × W)} (h : SortedBy asc (x :: l))
    (hy : y ∈ l) : Before asc x.1 y.1 :=
  (List.pairwise_cons.1 h).1 y hy

/-- A key before the head of a sorted list is not in it. -/
theorem SortedBy.not_mem_of_before {c : K × W} {cs : List (K × W)} (h : SortedBy asc (c :: cs))
    {k : K} (hk : Before asc k c.1) (w : W) : (k, w) ∉ c :: cs := by
  intro hw
  rcases List.mem_cons.1 hw with he | hw
  · rw [← he] at hk
    exact before_irrefl asc k hk
  · exact before_asymm hk (h.before hw)

/-- A key of the tail of a sorted list is not the head's. -/
theorem SortedBy.ne_of_mem_tail {c : K × W} {cs : List (K × W)} (h : SortedBy asc (c :: cs))
    {k : K} {w : W} (hw : (k, w) ∈ cs) : k ≠ c.1 := by
  intro he
  rw [he] at hw
  have hb := h.before hw
  exact before_irrefl asc c.1 hb

/-- A key of a sorted list is at or after its head. -/
theorem SortedBy.before_of_mem {p : K × W} {ps : List (K × W)} (h : SortedBy asc (p :: ps))
    {c : K} (hc : Before asc c p.1) {x : K × W} (hx : x ∈ p :: ps) : Before asc c x.1 := by
  rcases List.mem_cons.1 hx with rfl | hx
  · exact hc
  · exact before_trans hc (h.before hx)

omit [LinearOrder K] in
/-- A key that is not the head's and not in the tail is not in the list. -/
theorem not_mem_cons_of_ne {k : K} {c : K × W} {cs : List (K × W)} (hk : k ≠ c.1)
    (hn : ∀ w, (k, w) ∉ cs) (w : W) : (k, w) ∉ c :: cs := by
  intro hw
  rcases List.mem_cons.1 hw with rfl | hw
  · exact hk rfl
  · exact hn w hw

end SortedBy

/-! ## `memIterator` -/

/-- The loop of `newMemIterator` over `items`: skip items before the domain, take those in it,
and stop at the first one after it once `entered`. -/
def memItems (start stop : Option K) : List (K × Option V) → Bool → List (K × Option V)
  | [], _ => []
  | item :: rest, entered =>
    if isKeyInDomain start stop item.1 then item :: memItems start stop rest true
    else if entered then [] else memItems start stop rest false

/-- `newMemIterator`, as the items it yields in order: `Next` drops the first item when
ascending and the last when descending. -/
def newMemIterator (start stop : Option K) (items : List (K × Option V)) (ascending : Bool) :
    List (K × Option V) :=
  let itemsInDomain := memItems start stop items false
  if ascending then itemsInDomain else itemsInDomain.reverse

/-- On a sorted list the loop of `newMemIterator` keeps the items in the domain: once it has
entered the domain, an item out of it is past the end, and so is every later one. -/
theorem memItems_eq_filter (start stop : Option K) (items : List (K × Option V)) (entered : Bool)
    (hs : SortedBy true items) (he : entered = true → ∀ a ∈ start, ∀ x ∈ items, a ≤ x.1) :
    memItems start stop items entered = items.filter fun x => isKeyInDomain start stop x.1 := by
  induction items generalizing entered with
  | nil => rfl
  | cons item rest ih =>
    have hlt : ∀ x ∈ rest, item.1 < x.1 := fun x hx => by simpa [Before] using hs.before hx
    rw [memItems, List.filter_cons]
    by_cases hd : isKeyInDomain start stop item.1 = true
    · rw [if_pos hd, if_pos hd, ih true hs.tail fun _ a ha x hx =>
        (le_of_isKeyInDomain hd a ha).trans (hlt x hx).le]
    · rw [if_neg hd, if_neg hd]
      cases entered with
      | false => exact ih false hs.tail (by simp)
      | true =>
        have hlow : ∀ a ∈ start, a ≤ item.1 := fun a ha => he rfl a ha item List.mem_cons_self
        refine (List.filter_eq_nil_iff.2 fun x hx => ?_).symm
        simp [isKeyInDomain_eq_false_of_le hlow (Bool.eq_false_iff.2 hd) (hlt x hx).le]

/-- `newMemIterator` over a sorted list lists, in iteration order, the items in the domain. -/
theorem lists_newMemIterator {start stop : Option K} {items : List (K × Option V)}
    {c : K → Option (Option V)} (asc : Bool) (hs : SortedBy true items)
    (hm : ∀ k w, isKeyInDomain start stop k = true → ((k, w) ∈ items ↔ c k = some w)) :
    Lists c start stop asc (newMemIterator start stop items asc) := by
  have hf := memItems_eq_filter start stop items false hs (by simp)
  have hmem : ∀ k w, (k, w) ∈ items.filter (fun x => isKeyInDomain start stop x.1) ↔
      isKeyInDomain start stop k = true ∧ c k = some w := by
    intro k w
    rw [List.mem_filter]
    exact ⟨fun ⟨h, hd⟩ => ⟨hd, (hm k w hd).1 h⟩, fun ⟨hd, h⟩ => ⟨(hm k w hd).2 h, hd⟩⟩
  have hsf : SortedBy true (items.filter fun x => isKeyInDomain start stop x.1) := hs.filter _
  cases asc with
  | true =>
    simp only [newMemIterator, hf, if_true]
    exact ⟨hsf, hmem⟩
  | false =>
    -- read from the back, the ascending run is descending
    refine ⟨?_, by simpa [newMemIterator, hf] using hmem⟩
    simp only [newMemIterator, hf, Bool.false_eq_true, if_false]
    exact List.pairwise_reverse.2 (hsf.imp fun h => by simpa [Before] using h)

/-! ## `cacheMergeIterator` -/

/-- `cacheMergeIterator`: what is left of the parent's iterator and of the cache's. -/
structure MergeIterator (K V : Type) where
  parent : List (K × V)
  cache : List (K × Option V)
  ascending : Bool

/-- `skipCacheDeletes`: skip the deletes at the front of the cache that come before `untilKey`. -/
def skipCacheDeletes (asc : Bool) (untilKey : Option K) : List (K × Option V) → List (K × Option V)
  | [] => []
  | c :: cs =>
    if c.2.isNone && (match untilKey with | none => true | some u => iterCompare asc c.1 u == .lt)
    then skipCacheDeletes asc untilKey cs else c :: cs

theorem length_skipCacheDeletes_le (asc : Bool) (untilKey : Option K) (cs : List (K × Option V)) :
    (skipCacheDeletes asc untilKey cs).length ≤ cs.length := by
  induction cs with
  | nil => exact le_rfl
  | cons c cs ih =>
    simp only [skipCacheDeletes]
    split_ifs
    · exact ih.trans (Nat.le_succ _)
    · exact le_rfl

/-- A delete before the parent's key is skipped, so the cache gets shorter. -/
theorem length_skipCacheDeletes_lt {asc : Bool} {p : K × V} {c : K × Option V}
    (cs : List (K × Option V)) (hc : c.2.isNone = true) (h : iterCompare asc p.1 c.1 = .gt) :
    (skipCacheDeletes asc (some p.1) (c :: cs)).length < cs.length + 1 := by
  have hlt : iterCompare asc c.1 p.1 = .lt := iterCompare_eq_lt.2 (iterCompare_eq_gt.1 h)
  rw [skipCacheDeletes, if_pos (by simp [hc, hlt])]
  exact Nat.lt_succ_of_le (length_skipCacheDeletes_le asc _ cs)

set_option linter.unusedVariables false in
/-- `skipUntilExistsOrInvalid`: move past deletes until both sides point at an entry that
exists, and report whether one is left. -/
def skipUntilExistsOrInvalid (asc : Bool) :
    List (K × V) → List (K × Option V) → List (K × V) × List (K × Option V) × Bool
  | [], cache => ([], skipCacheDeletes asc none cache, !(skipCacheDeletes asc none cache).isEmpty)
  | p :: ps, [] => (p :: ps, [], true)
  | p :: ps, c :: cs =>
    match h : iterCompare asc p.1 c.1 with
    | .lt => (p :: ps, c :: cs, true)
    | .eq => if c.2.isNone then skipUntilExistsOrInvalid asc ps cs else (p :: ps, c :: cs, true)
    | .gt =>
      if hc : c.2.isNone then
        skipUntilExistsOrInvalid asc (p :: ps) (skipCacheDeletes asc (some p.1) (c :: cs))
      else (p :: ps, c :: cs, true)
termination_by ps cs => ps.length + cs.length
decreasing_by
  · simp only [List.length_cons]
    omega
  · have := length_skipCacheDeletes_lt cs hc h
    simp only [List.length_cons]
    omega

/-- `Valid`. -/
def valid (it : MergeIterator K V) : MergeIterator K V × Bool :=
  let r := skipUntilExistsOrInvalid it.ascending it.parent it.cache
  (⟨r.1, r.2.1, it.ascending⟩, r.2.2)

/-- `Key`; `none` is the panic of `assertValid`. -/
def key (it : MergeIterator K V) : MergeIterator K V × Option K :=
  let r := valid it
  (r.1, if !r.2 then none else
    match r.1.parent, r.1.cache with
    | [], c :: _ => some c.1
    | p :: _, [] => some p.1
    | p :: _, c :: _ =>
      match iterCompare r.1.ascending p.1 c.1 with
      | .lt => some p.1
      | .eq => some p.1
      | .gt => some c.1
    | [], [] => none)

/-- `Value`; `none` is the panic of `assertValid` or a `nil` value. -/
def value (it : MergeIterator K V) : MergeIterator K V × Option V :=
  let r := valid it
  (r.1, if !r.2 then none else
    match r.1.parent, r.1.cache with
    | [], c :: _ => c.2
    | p :: _, [] => some p.2
    | p :: _, c :: _ =>
      match iterCompare r.1.ascending p.1 c.1 with
      | .lt => some p.2
      | .eq => c.2
      | .gt => c.2
    | [], [] => none)

/-- `Next`; `none` is the panic of `assertValid`. -/
def next (it : MergeIterator K V) : Option (MergeIterator K V) :=
  let r := valid it
  if !r.2 then none else
    match r.1.parent, r.1.cache with
    | [], _ :: cs => some ⟨[], cs, r.1.ascending⟩
    | _ :: ps, [] => some ⟨ps, [], r.1.ascending⟩
    | p :: ps, c :: cs =>
      match iterCompare r.1.ascending p.1 c.1 with
      | .lt => some ⟨ps, c :: cs, r.1.ascending⟩
      | .eq => some ⟨ps, cs, r.1.ascending⟩
      | .gt => some ⟨p :: ps, cs, r.1.ascending⟩
    | [], [] => none

/-- What is left to iterate. -/
def MergeIterator.size (it : MergeIterator K V) : Nat := it.parent.length + it.cache.length

theorem size_skipUntilExistsOrInvalid (asc : Bool) (ps : List (K × V))
    (cs : List (K × Option V)) :
    (skipUntilExistsOrInvalid asc ps cs).1.length + (skipUntilExistsOrInvalid asc ps cs).2.1.length
      ≤ ps.length + cs.length := by
  fun_induction skipUntilExistsOrInvalid asc ps cs with
  | case1 cache => simpa using length_skipCacheDeletes_le asc none cache
  | case2 => exact le_rfl
  | case3 => exact le_rfl
  | case4 p ps c cs h hc ih => simp only [List.length_cons] at ih ⊢; omega
  | case5 => exact le_rfl
  | case6 p ps c cs h hc ih =>
    have := length_skipCacheDeletes_le asc (some p.1) (c :: cs)
    simp only [List.length_cons] at ih this ⊢
    omega
  | case7 => exact le_rfl

theorem size_valid_le (it : MergeIterator K V) : (valid it).1.size ≤ it.size :=
  size_skipUntilExistsOrInvalid it.ascending it.parent it.cache

@[simp] theorem key_fst (it : MergeIterator K V) : (key it).1 = (valid it).1 := rfl

@[simp] theorem value_fst (it : MergeIterator K V) : (value it).1 = (valid it).1 := rfl

/-- `Next` moves at least one side forward. -/
theorem size_next_lt {it it' : MergeIterator K V} (h : next it = some it') : it'.size < it.size := by
  have hv := size_valid_le it
  unfold next at h
  generalize valid it = r at h hv
  obtain ⟨⟨ps, cs, asc⟩, ok⟩ := r
  simp only [MergeIterator.size] at hv ⊢
  cases ok
  · cases h
  · simp only [Bool.not_true, Bool.false_eq_true, if_false] at h
    split at h
    · cases h
      simp at hv ⊢
      omega
    · cases h
      simp at hv ⊢
      omega
    · split at h <;> cases h <;> simp at hv ⊢ <;> omega
    · cases h

set_option linter.unusedVariables false in
/-- What a caller reads with `for ; it.Valid(); it.Next() { k := it.Key(); v := it.Value() }`. -/
def toList (it : MergeIterator K V) : List (K × V) :=
  if (valid it).2 then
    match (key (valid it).1).2, (value (key (valid it).1).1).2,
      h : next (value (key (valid it).1).1).1 with
    | some k, some v, some it' => (k, v) :: toList it'
    | _, _, _ => []
  else []
termination_by it.size
decreasing_by
  have h1 := size_next_lt h
  have h2 := size_valid_le (key (valid it).1).1
  have h3 := size_valid_le (valid it).1
  have h4 := size_valid_le it
  simp only [key_fst, value_fst] at h1 h2
  omega

/-! ## What the caller reads -/

/-- The parent's items with the cache's items shadowing them and the cache's deletes left out, in
iteration order. -/
def overlay (asc : Bool) : List (K × V) → List (K × Option V) → List (K × V)
  | [], cache => cache.filterMap fun c => c.2.map (c.1, ·)
  | p :: ps, [] => p :: ps
  | p :: ps, c :: cs =>
    match iterCompare asc p.1 c.1 with
    | .lt => p :: overlay asc ps (c :: cs)
    | .eq =>
      match c.2 with
      | none => overlay asc ps cs
      | some v => (c.1, v) :: overlay asc ps cs
    | .gt =>
      match c.2 with
      | none => overlay asc (p :: ps) cs
      | some v => (c.1, v) :: overlay asc (p :: ps) cs
termination_by ps cs => ps.length + cs.length

theorem overlay_nil_right (asc : Bool) (ps : List (K × V)) : overlay asc ps [] = ps := by
  cases ps <;> simp [overlay]

theorem overlay_skipCacheDeletes_none (asc : Bool) (cs : List (K × Option V)) :
    overlay asc [] (skipCacheDeletes asc none cs) = overlay asc [] cs := by
  induction cs with
  | nil => rfl
  | cons c cs ih =>
    simp only [skipCacheDeletes]
    split_ifs with h
    · rw [ih]
      cases c with
      | mk k v => cases v <;> simp_all [overlay]
    · rfl

/-- Skipping deletes before the parent's next key does not change what is read. -/
theorem overlay_skipCacheDeletes_some (asc : Bool) (p : K × V) (ps : List (K × V))
    (cs : List (K × Option V)) :
    overlay asc (p :: ps) (skipCacheDeletes asc (some p.1) cs) = overlay asc (p :: ps) cs := by
  induction cs with
  | nil => rfl
  | cons c cs ih =>
    simp only [skipCacheDeletes]
    split_ifs with h
    · simp only [Bool.and_eq_true, Option.isNone_iff_eq_none, beq_iff_eq] at h
      obtain ⟨hv, hlt⟩ := h
      have hgt : iterCompare asc p.1 c.1 = .gt := iterCompare_eq_gt.2 (iterCompare_eq_lt.1 hlt)
      rw [ih, overlay, hgt]
      simp [hv]
    · rfl

theorem overlay_skipUntilExistsOrInvalid (asc : Bool) (ps : List (K × V))
    (cs : List (K × Option V)) :
    overlay asc (skipUntilExistsOrInvalid asc ps cs).1 (skipUntilExistsOrInvalid asc ps cs).2.1 =
      overlay asc ps cs := by
  fun_induction skipUntilExistsOrInvalid asc ps cs with
  | case1 cache => exact overlay_skipCacheDeletes_none asc cache
  | case4 p ps c cs h hc ih =>
    rw [ih, overlay, h]
    simp [Option.isNone_iff_eq_none.1 hc]
  | case6 p ps c cs h hc ih =>
    rw [ih, overlay_skipCacheDeletes_some]
  | _ => rfl

/-- Both sides point at an entry that exists: where `skipUntilExistsOrInvalid` stops. -/
def Settled (asc : Bool) : List (K × V) → List (K × Option V) → Prop
  | [], c :: _ => c.2.isSome
  | _ :: _, [] => True
  | p :: _, c :: _ => iterCompare asc p.1 c.1 = .lt ∨ c.2.isSome
  | [], [] => False

theorem isSome_of_skipCacheDeletes_none {asc : Bool} {cs : List (K × Option V)}
    {d : K × Option V} {ds : List (K × Option V)} (h : skipCacheDeletes asc none cs = d :: ds) :
    d.2.isSome := by
  induction cs with
  | nil => cases h
  | cons c cs ih =>
    simp only [skipCacheDeletes] at h
    split_ifs at h with hc
    · exact ih h
    · cases h
      exact Option.isSome_iff_ne_none.2 (by simpa using hc)

/-- `skipUntilExistsOrInvalid` stops where both sides are settled, or with nothing left. -/
theorem skipUntilExistsOrInvalid_spec (asc : Bool) (ps : List (K × V)) (cs : List (K × Option V)) :
    ((skipUntilExistsOrInvalid asc ps cs).2.2 = true ∧
      Settled asc (skipUntilExistsOrInvalid asc ps cs).1 (skipUntilExistsOrInvalid asc ps cs).2.1) ∨
    ((skipUntilExistsOrInvalid asc ps cs).2.2 = false ∧ (skipUntilExistsOrInvalid asc ps cs).1 = [] ∧
      (skipUntilExistsOrInvalid asc ps cs).2.1 = []) := by
  fun_induction skipUntilExistsOrInvalid asc ps cs with
  | case1 cache =>
    cases hc : skipCacheDeletes asc none cache with
    | nil => exact Or.inr ⟨rfl, rfl, rfl⟩
    | cons d ds => exact Or.inl ⟨rfl, isSome_of_skipCacheDeletes_none hc⟩
  | case2 => exact Or.inl ⟨rfl, trivial⟩
  | case3 p ps c cs h => exact Or.inl ⟨rfl, Or.inl h⟩
  | case4 => assumption
  | case5 p ps c cs h hc =>
    exact Or.inl ⟨rfl, Or.inr (Option.isSome_iff_ne_none.2 (by simpa using hc))⟩
  | case6 => assumption
  | case7 p ps c cs h hc =>
    exact Or.inl ⟨rfl, Or.inr (Option.isSome_iff_ne_none.2 (by simpa using hc))⟩

/-- A settled iterator does not move on `Valid`. -/
theorem skipUntilExistsOrInvalid_settled {asc : Bool} {ps : List (K × V)}
    {cs : List (K × Option V)} (h : Settled asc ps cs) :
    skipUntilExistsOrInvalid asc ps cs = (ps, cs, true) := by
  match ps, cs, h with
  | [], c :: cs, h =>
    simp only [Settled] at h
    simp [skipUntilExistsOrInvalid, skipCacheDeletes, Option.isSome_iff_ne_none.1 h]
  | p :: ps, [], _ => simp [skipUntilExistsOrInvalid]
  | p :: ps, c :: cs, h =>
    simp only [Settled] at h
    rw [skipUntilExistsOrInvalid]
    rcases h with h | h
    · split
      · rfl
      · rename_i heq
        rw [h] at heq
        cases heq
      · rename_i hgt
        rw [h] at hgt
        cases hgt
    · have hn : c.2.isNone = false := by simpa using h
      split <;> simp [hn]

/-- On a settled iterator `Key`, `Value` and `Next` read the first entry of `overlay` and move
past it. -/
theorem read_settled {asc : Bool} {ps : List (K × V)} {cs : List (K × Option V)}
    (h : Settled asc ps cs) :
    ∃ k v it', (key ⟨ps, cs, asc⟩).2 = some k ∧ (value ⟨ps, cs, asc⟩).2 = some v ∧
      next ⟨ps, cs, asc⟩ = some it' ∧ it'.ascending = asc ∧
      overlay asc ps cs = (k, v) :: overlay asc it'.parent it'.cache := by
  have hv : valid ⟨ps, cs, asc⟩ = (⟨ps, cs, asc⟩, true) := by
    simp [valid, skipUntilExistsOrInvalid_settled h]
  match ps, cs, h with
  | [], c :: cs, h =>
    obtain ⟨v, hcv⟩ := Option.isSome_iff_exists.1 h
    refine ⟨c.1, v, ⟨[], cs, asc⟩, ?_, ?_, ?_, rfl, ?_⟩ <;> simp [key, value, next, hv, hcv, overlay]
  | p :: ps, [], _ =>
    refine ⟨p.1, p.2, ⟨ps, [], asc⟩, ?_, ?_, ?_, rfl, ?_⟩ <;>
      simp [key, value, next, hv, overlay_nil_right]
  | p :: ps, c :: cs, h =>
    cases hcmp : iterCompare asc p.1 c.1 with
    | lt =>
      refine ⟨p.1, p.2, ⟨ps, c :: cs, asc⟩, ?_, ?_, ?_, rfl, ?_⟩ <;>
        simp [key, value, next, hv, hcmp, overlay]
    | eq =>
      have hpc := iterCompare_eq_eq.1 hcmp
      obtain ⟨v, hcv⟩ := Option.isSome_iff_exists.1 (h.resolve_left (by simp [hcmp]))
      refine ⟨p.1, v, ⟨ps, cs, asc⟩, ?_, ?_, ?_, rfl, ?_⟩
      · simp [key, hv, hcmp]
      · simp [value, hv, hcmp, hcv]
      · simp [next, hv, hcmp]
      · rw [overlay, hcmp, hcv, hpc]
    | gt =>
      obtain ⟨v, hcv⟩ := Option.isSome_iff_exists.1 (h.resolve_left (by simp [hcmp]))
      refine ⟨c.1, v, ⟨p :: ps, cs, asc⟩, ?_, ?_, ?_, rfl, ?_⟩ <;>
        simp [key, value, next, hv, hcmp, hcv, overlay]

/-- `Valid` twice moves no further than once. -/
theorem valid_valid (it : MergeIterator K V) : valid (valid it).1 = valid it := by
  obtain ⟨ps, cs, asc⟩ := it
  rcases skipUntilExistsOrInvalid_spec asc ps cs with ⟨hok, hs⟩ | ⟨hok, hp, hc⟩
  · simp only [valid, skipUntilExistsOrInvalid_settled hs, hok]
  · simp only [valid, hp, hc, hok]
    simp [skipUntilExistsOrInvalid, skipCacheDeletes]

theorem toList_valid (it : MergeIterator K V) : toList (valid it).1 = toList it := by
  rw [toList, toList, valid_valid]

/-- A settled iterator reads its first entry, then the rest from where `Next` leaves it. -/
theorem toList_settled {asc : Bool} {ps : List (K × V)} {cs : List (K × Option V)}
    (hs : Settled asc ps cs) : ∃ k v it', next ⟨ps, cs, asc⟩ = some it' ∧ it'.ascending = asc ∧
      toList ⟨ps, cs, asc⟩ = (k, v) :: toList it' ∧
      overlay asc ps cs = (k, v) :: overlay asc it'.parent it'.cache := by
  obtain ⟨k, v, it', hk, hval, hn, hasc, hstep⟩ := read_settled hs
  have hv : valid ⟨ps, cs, asc⟩ = (⟨ps, cs, asc⟩, true) := by
    simp [valid, skipUntilExistsOrInvalid_settled hs]
  refine ⟨k, v, it', hn, hasc, ?_, hstep⟩
  rw [toList, if_pos (by rw [hv])]
  split
  · rename_i k' v' it'' hk' hv' hn'
    simp only [hv, key_fst, value_fst, hk, hval, hn, Option.some.injEq] at hk' hv' hn'
    rw [hk', hv', hn']
  · rename_i hne
    refine absurd (hne k v it' ?_ ?_ ?_) (by simp) <;> simp only [hv, key_fst, value_fst, hk, hval, hn]

/-- The caller of the merge iterator reads `overlay`. -/
theorem toList_eq_overlay (it : MergeIterator K V) :
    toList it = overlay it.ascending it.parent it.cache := by
  induction h : it.size using Nat.strong_induction_on generalizing it with
  | _ n ih =>
    obtain ⟨ps, cs, asc⟩ := it
    have hov := overlay_skipUntilExistsOrInvalid asc ps cs
    have hsize := size_valid_le ⟨ps, cs, asc⟩
    rw [← toList_valid]
    simp only [valid] at hsize ⊢
    rw [← hov]
    rcases skipUntilExistsOrInvalid_spec asc ps cs with ⟨-, hs⟩ | ⟨hok, hp, hc⟩
    · -- settled: one entry is read, then the rest from a smaller iterator
      obtain ⟨k, v, it', hn, hasc, htl, hstep⟩ := toList_settled hs
      have hlt := size_next_lt hn
      rw [htl, hstep, ih it'.size (by simp only [MergeIterator.size] at hsize hlt h ⊢; omega) it' rfl,
        hasc]
    · -- nothing is left to read
      rw [hp, hc, toList, if_neg (by simp [valid, skipUntilExistsOrInvalid, skipCacheDeletes])]
      simp [overlay]

/-! ## `overlay` of two listings -/

section Overlay

variable {asc : Bool}

/-- `overlay` holds an entry of the cache that is not a delete, or one of the parent whose key
the cache does not hold. -/
theorem mem_overlay {P : List (K × V)} {C : List (K × Option V)} (hP : SortedBy asc P)
    (hC : SortedBy asc C) (k : K) (v : V) :
    (k, v) ∈ overlay asc P C ↔ (k, some v) ∈ C ∨ ((∀ w, (k, w) ∉ C) ∧ (k, v) ∈ P) := by
  fun_induction overlay asc P C with
  | case1 cache =>
    simp only [List.mem_filterMap, Option.map_eq_some_iff, Prod.mk.injEq, List.not_mem_nil,
      and_false, or_false]
    constructor
    · rintro ⟨⟨k', w⟩, hc, v', hw, rfl, rfl⟩
      simp only at hw
      exact hw ▸ hc
    · intro hc
      exact ⟨(k, some v), hc, v, rfl, rfl, rfl⟩
  | case2 p ps => simp
  | case3 p ps c cs hlt ih =>
    rw [List.mem_cons, ih hP.tail hC]
    have hb := iterCompare_eq_lt.1 hlt
    constructor
    · rintro (he | hl | ⟨hn, hm⟩)
      · subst he
        exact Or.inr ⟨hC.not_mem_of_before hb, List.mem_cons_self⟩
      · exact Or.inl hl
      · exact Or.inr ⟨hn, List.mem_cons_of_mem p hm⟩
    · rintro (hl | ⟨hn, hm⟩)
      · exact Or.inr (Or.inl hl)
      · rcases List.mem_cons.1 hm with he | hm
        · exact Or.inl he
        · exact Or.inr (Or.inr ⟨hn, hm⟩)
  | case4 p ps c cs heq hnone ih =>
    rw [ih hP.tail hC.tail]
    have hpc := iterCompare_eq_eq.1 heq
    constructor
    · rintro (hl | ⟨hn, hm⟩)
      · exact Or.inl (List.mem_cons_of_mem c hl)
      · have hk : k ≠ c.1 := hpc ▸ hP.ne_of_mem_tail hm
        exact Or.inr ⟨not_mem_cons_of_ne hk hn, List.mem_cons_of_mem p hm⟩
    · rintro (hl | ⟨hn, hm⟩)
      · rcases List.mem_cons.1 hl with he | hl
        · rw [← he] at hnone
          cases hnone
        · exact Or.inl hl
      · rcases List.mem_cons.1 hm with rfl | hm
        · exact (hn c.2 (by rw [show k = c.1 from hpc]; exact List.mem_cons_self)).elim
        · exact Or.inr ⟨fun w hw => hn w (List.mem_cons_of_mem c hw), hm⟩
  | case5 p ps c cs heq v' hsome ih =>
    rw [List.mem_cons, ih hP.tail hC.tail]
    have hpc := iterCompare_eq_eq.1 heq
    have hc : c = (c.1, some v') := by rw [← hsome]
    constructor
    · rintro (he | hl | ⟨hn, hm⟩)
      · obtain ⟨rfl, rfl⟩ := Prod.mk.inj he
        exact Or.inl (hc ▸ List.mem_cons_self)
      · exact Or.inl (List.mem_cons_of_mem c hl)
      · have hk : k ≠ c.1 := hpc ▸ hP.ne_of_mem_tail hm
        exact Or.inr ⟨not_mem_cons_of_ne hk hn, List.mem_cons_of_mem p hm⟩
    · rintro (hl | ⟨hn, hm⟩)
      · rcases List.mem_cons.1 hl with he | hl
        · rw [hc] at he
          obtain ⟨rfl, hv⟩ := Prod.mk.inj he
          cases hv
          exact Or.inl rfl
        · exact Or.inr (Or.inl hl)
      · rcases List.mem_cons.1 hm with rfl | hm
        · exact (hn (some v') (by rw [show k = c.1 from hpc, ← hc]; exact List.mem_cons_self)).elim
        · exact Or.inr (Or.inr ⟨fun w hw => hn w (List.mem_cons_of_mem c hw), hm⟩)
  | case6 p ps c cs hgt hnone ih =>
    rw [ih hP hC.tail]
    have hb := iterCompare_eq_gt.1 hgt
    constructor
    · rintro (hl | ⟨hn, hm⟩)
      · exact Or.inl (List.mem_cons_of_mem c hl)
      · have hk : k ≠ c.1 := fun h => before_irrefl asc c.1 (h ▸ hP.before_of_mem hb hm :)
        exact Or.inr ⟨not_mem_cons_of_ne hk hn, hm⟩
    · rintro (hl | ⟨hn, hm⟩)
      · rcases List.mem_cons.1 hl with he | hl
        · rw [← he] at hnone
          cases hnone
        · exact Or.inl hl
      · exact Or.inr ⟨fun w hw => hn w (List.mem_cons_of_mem c hw), hm⟩
  | case7 p ps c cs hgt v' hsome ih =>
    rw [List.mem_cons, ih hP hC.tail]
    have hb := iterCompare_eq_gt.1 hgt
    have hc : c = (c.1, some v') := by rw [← hsome]
    constructor
    · rintro (he | hl | ⟨hn, hm⟩)
      · obtain ⟨rfl, rfl⟩ := Prod.mk.inj he
        exact Or.inl (hc ▸ List.mem_cons_self)
      · exact Or.inl (List.mem_cons_of_mem c hl)
      · have hk : k ≠ c.1 := fun h => before_irrefl asc c.1 (h ▸ hP.before_of_mem hb hm :)
        exact Or.inr ⟨not_mem_cons_of_ne hk hn, hm⟩
    · rintro (hl | ⟨hn, hm⟩)
      · rcases List.mem_cons.1 hl with he | hl
        · rw [hc] at he
          obtain ⟨rfl, hv⟩ := Prod.mk.inj he
          cases hv
          exact Or.inl rfl
        · exact Or.inr (Or.inl hl)
      · exact Or.inr (Or.inr ⟨fun w hw => hn w (List.mem_cons_of_mem c hw), hm⟩)

theorem mem_of_mem_overlay {P : List (K × V)} {C : List (K × Option V)} (hP : SortedBy asc P)
    (hC : SortedBy asc C) {x : K × V} (hx : x ∈ overlay asc P C) : (x.1, some x.2) ∈ C ∨ x ∈ P := by
  rcases (mem_overlay hP hC x.1 x.2).1 hx with h | ⟨_, h⟩
  · exact Or.inl h
  · exact Or.inr h

/-- A key before every key of both listings is before every key of their `overlay`. -/
theorem before_of_mem_overlay {P : List (K × V)} {C : List (K × Option V)} (hP : SortedBy asc P)
    (hC : SortedBy asc C) {a : K} (hPa : ∀ y ∈ P, Before asc a y.1) (hCa : ∀ y ∈ C, Before asc a y.1)
    {x : K × V} (hx : x ∈ overlay asc P C) : Before asc a x.1 := by
  rcases mem_of_mem_overlay hP hC hx with h | h
  · exact hCa _ h
  · exact hPa _ h

/-- `overlay` lists in iteration order. -/
theorem sortedBy_overlay {P : List (K × V)} {C : List (K × Option V)} (hP : SortedBy asc P)
    (hC : SortedBy asc C) : SortedBy asc (overlay asc P C) := by
  fun_induction overlay asc P C with
  | case1 cache =>
    refine hC.filterMap _ fun a a' h b hb b' hb' => ?_
    obtain ⟨_, _, rfl⟩ := Option.map_eq_some_iff.1 hb
    obtain ⟨_, _, rfl⟩ := Option.map_eq_some_iff.1 hb'
    exact h
  | case2 p ps => exact hP
  | case3 p ps c cs hlt ih =>
    have hb := iterCompare_eq_lt.1 hlt
    refine List.pairwise_cons.2 ⟨fun x hx => ?_, ih hP.tail hC⟩
    exact before_of_mem_overlay hP.tail hC (fun y hy => hP.before hy)
      (fun y hy => hC.before_of_mem hb hy) hx
  | case4 p ps c cs heq hnone ih => exact ih hP.tail hC.tail
  | case5 p ps c cs heq v' hsome ih =>
    have hpc := iterCompare_eq_eq.1 heq
    refine List.pairwise_cons.2 ⟨fun x hx => ?_, ih hP.tail hC.tail⟩
    exact before_of_mem_overlay hP.tail hC.tail (fun y hy => hpc ▸ hP.before hy)
      (fun y hy => hC.before hy) hx
  | case6 p ps c cs hgt hnone ih => exact ih hP hC.tail
  | case7 p ps c cs hgt v' hsome ih =>
    have hb := iterCompare_eq_gt.1 hgt
    refine List.pairwise_cons.2 ⟨fun x hx => ?_, ih hP hC.tail⟩
    exact before_of_mem_overlay hP hC.tail (fun y hy => hP.before_of_mem hb hy)
      (fun y hy => hC.before hy) hx

/-- The map `m` read through the cache's entries `c`: an entry shadows `m`, and `none` in it is
a delete. -/
def shadow (c : K → Option (Option V)) (m : K → Option V) (k : K) : Option V :=
  (c k).getD (m k)

/-- Over a listing of the parent and one of the cache, `overlay` lists the parent shadowed by
the cache. -/
theorem lists_overlay {start stop : Option K} {m : K → Option V} {c : K → Option (Option V)}
    {P : List (K × V)} {C : List (K × Option V)} (hP : Lists m start stop asc P)
    (hC : Lists c start stop asc C) : Lists (shadow c m) start stop asc (overlay asc P C) := by
  refine ⟨sortedBy_overlay hP.sorted hC.sorted, fun k v => ?_⟩
  rw [mem_overlay hP.sorted hC.sorted, hC.mem, hP.mem]
  simp only [hC.mem, shadow]
  cases c k <;> grind

end Overlay

end Barkis.CacheKV
