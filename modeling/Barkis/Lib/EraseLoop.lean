import Mathlib.Data.List.Basic

/-!
# A loop that deletes from the slice it walks

`for i := 0; i < len(xs); i++ { x := xs[i]; if p(x) { xs = append(xs[:i], xs[i+1:]...); i--; … } }`
visits every element once: after a deletion the index stays where it is, and the next element has
moved into it. `loop_eq`: the loop keeps the elements `p` rejects, in their order, and runs its
action on the others, in their order.
-/

namespace Barkis.EraseLoop

variable {m : Type → Type} [Monad m] {α σ : Type}

/-- The loop at index `i`: a deleted element is removed with `append(xs[:i], xs[i+1:]...)` and the
index stays (`i--` then `i++`); the action `f` follows the deletion. -/
def loop (p : α → Bool) (f : σ → α → m σ) (s : σ) (xs : List α) (i : Nat) : m (σ × List α) :=
  if h : i < xs.length then
    if p xs[i] then do
      let s ← f s xs[i]
      loop p f s (xs.eraseIdx i) i
    else loop p f s xs (i + 1)
  else pure (s, xs)
termination_by xs.length - i
decreasing_by
  · rw [List.length_eraseIdx_of_lt h]
    omega
  · omega

variable [LawfulMonad m] (p : α → Bool) (f : σ → α → m σ)

/-- Past a front `pre` that the loop has kept, the rest is filtered and acted on in order. -/
theorem loop_append : ∀ (rest pre : List α) (s : σ),
    loop p f s (pre ++ rest) pre.length =
      (fun s => (s, pre ++ rest.filter fun x => !p x)) <$> (rest.filter p).foldlM f s
  | [], pre, s => by
    rw [loop, dif_neg (by simp)]
    simp
  | x :: rest, pre, s => by
    have hi : pre.length < (pre ++ x :: rest).length := by simp
    have hx : (pre ++ x :: rest)[pre.length] = x := by simp
    rw [loop, dif_pos hi, hx]
    by_cases hp : p x
    · -- `x` is deleted and the index now names the next element
      have herase : (pre ++ x :: rest).eraseIdx pre.length = pre ++ rest := by
        simp [List.eraseIdx_append_of_length_le]
      rw [if_pos hp, herase, List.filter_cons_of_pos hp, List.foldlM_cons, map_bind,
        List.filter_cons_of_neg (by simpa using hp)]
      exact bind_congr fun s => loop_append rest pre s
    · -- `x` is kept and becomes part of the front
      have hfront := loop_append rest (pre ++ [x]) s
      rw [List.append_assoc, List.singleton_append, List.length_append,
        List.length_singleton] at hfront
      rw [if_neg hp, hfront, List.filter_cons_of_neg hp,
        List.filter_cons_of_pos (by simpa using hp)]
      simp

/-- The whole loop, from index `0`. -/
theorem loop_eq (s : σ) (xs : List α) :
    loop p f s xs 0 = (fun s => (s, xs.filter fun x => !p x)) <$> (xs.filter p).foldlM f s :=
  loop_append p f xs [] s

end Barkis.EraseLoop
