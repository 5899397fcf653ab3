import Barkis.Lib.KVStore
import Barkis.Lib.Lex

/-!
# Prefix stores

`store/prefix`: a store over a parent that puts a fixed prefix in front of every key (`prefix` is
a keyword of Lean, so the prefix is `pre`). Its iterator asks the parent for the keys from
`pre ++ start` up to `pre ++ end`, or up to `PrefixEndBytes pre` without an end. It keeps the
entries while their keys have the prefix, and strips the prefix.

* `prefixEndBytes_cases`: `PrefixEndBytes` cuts the trailing `0xFF` bytes and increments the last
  byte left, or returns `nil` when every byte is `0xFF`.
* `lt_prefixEndBytes`, `prefixEndBytes_le`: that end is the least byte string above every
  extension of the prefix.
* `lt_inclusiveEndBytes_iff`: a range that ends at `InclusiveEndBytes k` stops right after `k`.
* `lists_prefixOps`: over a parent that refines its map, the prefix store's iterators list the map
  `k ↦ parent (pre ++ k)` in order, forward and in reverse.
-/

namespace Barkis.Store

open KVStore Barkis.Lex

/-- The loop of `PrefixEndBytes`, on the bytes of `end` from the last. A last byte below `0xFF`
is incremented. A `0xFF` is cut off and the loop goes on; an `end` cut to nothing is `nil`. -/
def prefixEndLoop : List UInt8 → Option (List UInt8)
  | [] => none
  | b :: rest => if b != 255 then some ((b + 1) :: rest) else prefixEndLoop rest

/-- `PrefixEndBytes`; `none` is `nil`. -/
def prefixEndBytes (pre : List UInt8) : Option (List UInt8) :=
  if pre.length = 0 then none else (prefixEndLoop pre.reverse).map List.reverse

/-- `stripPrefix`. Its panic on a key without the prefix cannot happen: the iterator calls it only
on keys that pass the `HasPrefix` guard. -/
def stripPrefix (key pre : List UInt8) : List UInt8 := key.drop pre.length

/-- The parent's start, `cloneAppend(prefix, start)`: the prefix itself for a `nil` start. -/
def newStart (pre : List UInt8) (start : Option (List UInt8)) : List UInt8 := pre ++ start.getD []

/-- The parent's end: `cpIncr(prefix)` for a `nil` end, `cloneAppend(prefix, end)` otherwise. -/
def newEnd (pre : List UInt8) : Option (List UInt8) → Option (List UInt8)
  | none => prefixEndBytes pre
  | some stop => some (pre ++ stop)

variable {σ V : Type*}

/-- `prefix.Store` over `parent`. `Iterator` and `ReverseIterator` differ only in the parent
iterator they open. `prefixIterator` is valid while the parent's key has the prefix, so the
listing stops at the first key without it. -/
def prefixOps (parent : Ops σ (List UInt8) V) (pre : List UInt8) : Ops σ (List UInt8) V where
  get s key := parent.get s (pre ++ key)
  set s key value := parent.set s (pre ++ key) value
  delete s key := parent.delete s (pre ++ key)
  iterator s start stop ascending :=
    let r := parent.iterator s (some (newStart pre start)) (newEnd pre stop) ascending
    (r.1, (r.2.takeWhile fun kv => pre.isPrefixOf kv.1).map fun kv => (stripPrefix kv.1 pre, kv.2))

/-! ## The end of a prefix -/

theorem prefixEndLoop_cases : ∀ r : List UInt8,
    (prefixEndLoop r = none ∧ r = List.replicate r.length 255) ∨
      ∃ k b rest, b ≠ 255 ∧ r = List.replicate k 255 ++ b :: rest ∧
        prefixEndLoop r = some ((b + 1) :: rest)
  | [] => Or.inl ⟨rfl, rfl⟩
  | b :: rest => by
    by_cases hb : b = 255
    · subst hb
      rcases prefixEndLoop_cases rest with ⟨h, hr⟩ | ⟨k, b', rest', hb', hr, h⟩
      · left
        refine ⟨by simp [prefixEndLoop, h], ?_⟩
        rw [List.length_cons, List.replicate_succ, ← hr]
      · right
        refine ⟨k + 1, b', rest', hb', by rw [hr, List.replicate_succ, List.cons_append], ?_⟩
        simp [prefixEndLoop, h]
    · exact Or.inr ⟨0, b, rest, hb, rfl, by simp [prefixEndLoop, hb]⟩

theorem prefixEndBytes_cases (pre : List UInt8) :
    (prefixEndBytes pre = none ∧ pre = List.replicate pre.length 255) ∨
      ∃ q b k, b ≠ 255 ∧ pre = q ++ b :: List.replicate k 255 ∧
        prefixEndBytes pre = some (q ++ [b + 1]) := by
  by_cases h0 : pre.length = 0
  · rw [List.length_eq_zero_iff] at h0
    subst h0
    exact Or.inl ⟨rfl, rfl⟩
  rcases prefixEndLoop_cases pre.reverse with ⟨h, hr⟩ | ⟨k, b, rest, hb, hr, h⟩
  · left
    refine ⟨by rw [prefixEndBytes, if_neg h0, h, Option.map_none], ?_⟩
    rw [← List.reverse_reverse pre, hr, List.reverse_replicate, List.length_replicate,
      List.length_reverse]
  · right
    refine ⟨rest.reverse, b, k, hb, ?_, ?_⟩
    · rw [← List.reverse_reverse pre, hr, List.reverse_append, List.reverse_cons,
        List.reverse_replicate, List.append_assoc, List.singleton_append]
    · rw [prefixEndBytes, if_neg h0, h, Option.map_some, List.reverse_cons]

example : prefixEndBytes [1, 255, 255] = some [2] := by decide

theorem prefixEndBytes_eq_some {pre e : List UInt8} (he : prefixEndBytes pre = some e) :
    ∃ q b k, b ≠ 255 ∧ pre = q ++ b :: List.replicate k 255 ∧ e = q ++ [b + 1] := by
  rcases prefixEndBytes_cases pre with ⟨h, -⟩ | ⟨q, b, k, hb, hpre, h⟩
  · rw [h] at he
    cases he
  · rw [h, Option.some_inj] at he
    exact ⟨q, b, k, hb, hpre, he.symm⟩

/-- Every extension of the prefix is below its end. -/
theorem lt_prefixEndBytes {pre e x : List UInt8} (he : prefixEndBytes pre = some e)
    (hx : pre <+: x) : x < e := by
  obtain ⟨q, b, k, hb, rfl, rfl⟩ := prefixEndBytes_eq_some he
  exact lt_of_isPrefix q (covBy_add_one hb) k hx

/-- The end of the prefix is the least byte string above every extension of the prefix. -/
theorem prefixEndBytes_le {pre e y : List UInt8} (he : prefixEndBytes pre = some e)
    (hy : ∀ x, pre <+: x → x < y) : e ≤ y := by
  obtain ⟨q, b, k, hb, rfl, rfl⟩ := prefixEndBytes_eq_some he
  exact le_of_forall_prefix_lt q (covBy_add_one hb) k hy

theorem prefixEndBytes_eq_none_iff (pre : List UInt8) :
    prefixEndBytes pre = none ↔ ∀ b ∈ pre, b = 255 := by
  rcases prefixEndBytes_cases pre with ⟨h, hr⟩ | ⟨q, b, k, hb, rfl, h⟩
  · refine ⟨fun _ => ?_, fun _ => h⟩
    rw [hr]
    exact fun b hb => List.eq_of_mem_replicate hb
  · rw [h]
    simp only [reduceCtorEq, false_iff, not_forall]
    exact ⟨b, by simp, hb⟩

/-- Between the prefix and its end lie exactly the prefix's extensions. -/
theorem prefix_of_le {pre x : List UInt8} (hle : pre ≤ x)
    (hlt : ∀ e, prefixEndBytes pre = some e → x < e) : pre <+: x := by
  rcases prefixEndBytes_cases pre with ⟨-, hr⟩ | ⟨q, b, k, hb, rfl, h⟩
  · rw [hr] at hle ⊢
    exact (replicate_top_le_iff _ x).1 hle
  · exact (le_and_lt_iff_isPrefix q (covBy_add_one hb) k x).1 ⟨hle, hlt _ h⟩

/-- `InclusiveEndBytes`: one zero byte after the key, the end of a range that includes it. -/
def inclusiveEndBytes (inclusiveBytes : List UInt8) : List UInt8 := inclusiveBytes ++ [0]

/-- A range that ends at `InclusiveEndBytes k` holds the keys up to `k`. -/
theorem lt_inclusiveEndBytes_iff {x k : List UInt8} : x < inclusiveEndBytes k ↔ x ≤ k :=
  lt_append_bot_iff isBot_zero x k

/-! ## Iteration -/

/-- The parent's domain, at a key with the prefix, is the prefix store's domain. -/
theorem isKeyInDomain_newStart (pre k : List UInt8) (start stop : Option (List UInt8)) :
    isKeyInDomain (some (newStart pre start)) (newEnd pre stop) (pre ++ k) =
      isKeyInDomain start stop k := by
  unfold isKeyInDomain
  congr 1
  · cases start with
    | none => simpa [newStart] using le_of_isPrefix (List.prefix_append pre k)
    | some a => simp [newStart, append_le_append_iff]
  · cases stop with
    | none =>
      cases he : prefixEndBytes pre with
      | none => simp [newEnd, he]
      | some e => simpa [newEnd, he] using lt_prefixEndBytes he (List.prefix_append pre k)
    | some b => simp [newEnd, append_lt_append_iff]

/-- Every key the parent lists for the prefix store has the prefix. -/
theorem prefix_of_isKeyInDomain {pre x : List UInt8} {start stop : Option (List UInt8)}
    (h : isKeyInDomain (some (newStart pre start)) (newEnd pre stop) x = true) : pre <+: x := by
  have hle : pre ≤ x :=
    (le_of_isPrefix (List.prefix_append _ _)).trans (le_of_isKeyInDomain h _ rfl)
  refine prefix_of_le hle fun e he => ?_
  cases stop with
  | none =>
    simp only [isKeyInDomain, newEnd, he, Bool.and_eq_true, decide_eq_true_eq] at h
    exact h.2
  | some b =>
    simp only [isKeyInDomain, newEnd, Bool.and_eq_true, decide_eq_true_eq] at h
    exact h.2.trans (lt_prefixEndBytes he (List.prefix_append pre b))

theorem stripPrefix_append (pre k : List UInt8) : stripPrefix (pre ++ k) pre = k :=
  List.drop_left

variable {parent : Ops σ (List UInt8) V} {Inv : σ → Prop} {view : σ → List UInt8 → Option V}

/-- Over a parent that lists its map, the prefix store lists the map seen through the prefix: the
`HasPrefix` guard never stops the listing early, and stripping the prefix keeps the order. -/
theorem lists_prefixOps (hp : Refines parent Inv view) (pre : List UInt8) (s : σ)
    (start stop : Option (List UInt8)) (ascending : Bool) (hs : Inv s) :
    Lists (fun k => view s (pre ++ k)) start stop ascending
      ((prefixOps parent pre).iterator s start stop ascending).2 := by
  have hl := hp.iter_items s (some (newStart pre start)) (newEnd pre stop) ascending hs
  simp only [prefixOps]
  generalize (parent.iterator s (some (newStart pre start)) (newEnd pre stop) ascending).2 = items
    at hl ⊢
  have hpre : ∀ kv ∈ items, pre <+: kv.1 := fun kv hkv =>
    prefix_of_isKeyInDomain ((hl.mem kv.1 kv.2).1 hkv).1
  have htake : (items.takeWhile fun kv => pre.isPrefixOf kv.1) = items :=
    List.takeWhile_eq_self_iff.2 fun kv hkv => List.isPrefixOf_iff_prefix.2 (hpre kv hkv)
  -- a listed key is the prefix followed by the key it is stripped to
  have hkey : ∀ kv ∈ items, kv.1 = pre ++ stripPrefix kv.1 pre := fun kv hkv =>
    (List.prefix_iff_eq_append.1 (hpre kv hkv)).symm
  rw [htake]
  refine ⟨List.pairwise_map.2 (hl.sorted.imp_of_mem fun ha hb hab => ?_), fun k v => ?_⟩
  · rw [hkey _ ha, hkey _ hb] at hab
    cases ascending
    · exact (append_lt_append_iff pre).1 hab
    · exact (append_lt_append_iff pre).1 hab
  · rw [← isKeyInDomain_newStart pre k start stop, ← hl.mem, List.mem_map]
    constructor
    · rintro ⟨⟨x, w⟩, hx, hxk⟩
      cases hxk
      rw [← hkey _ hx]
      exact hx
    · intro h
      exact ⟨_, h, by rw [stripPrefix_append]⟩

theorem prefix_store_iterates (hp : Refines parent Inv view) (pre : List UInt8) :
    (∀ s start stop ascending, Inv s →
      Lists (fun k => view s (pre ++ k)) start stop ascending
        ((prefixOps parent pre).iterator s start stop ascending).2) ∧
    (∀ e, prefixEndBytes pre = some e →
      (∀ x, pre <+: x → x < e) ∧ ∀ y, (∀ x, pre <+: x → x < y) → e ≤ y) ∧
    (prefixEndBytes pre = none ↔ ∀ b ∈ pre, b = 255) :=
  ⟨fun s start stop ascending hs => lists_prefixOps hp pre s start stop ascending hs,
    fun _ he => ⟨fun _ hx => lt_prefixEndBytes he hx, fun _ hy => prefixEndBytes_le he hy⟩,
    prefixEndBytes_eq_none_iff pre⟩

/-- A finite map as the parent (its map read back by its own `get`), under the prefix `[1, 0xFF]`,
whose end is `[2]`. -/
theorem prefix_store_iterates_amap :
    Refines (amapOps : Ops (AList fun _ : List UInt8 => Nat) (List UInt8) Nat) (fun _ => True)
        (fun m k => (amapOps.get m k).2) ∧
      (∀ (s : AList fun _ : List UInt8 => Nat) start stop ascending, True →
        Lists (fun k => (amapOps.get s ([1, 255] ++ k)).2) start stop ascending
          ((prefixOps amapOps [1, 255]).iterator s start stop ascending).2) ∧
      (∀ e, prefixEndBytes [1, 255] = some e →
        (∀ x, [1, 255] <+: x → x < e) ∧ ∀ y, (∀ x, [1, 255] <+: x → x < y) → e ≤ y) ∧
      (prefixEndBytes [1, 255] = none ↔ ∀ b ∈ ([1, 255] : List UInt8), b = 255) :=
  ⟨amapOps_refines, prefix_store_iterates amapOps_refines [1, 255]⟩

end Barkis.Store
