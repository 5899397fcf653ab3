import Mathlib.Logic.Basic

/-!
# Chains of checks

A validation written as `do if c₁ then throw e₁; …; if cₙ then throw eₙ` in `Except ε Unit`
passes exactly when none of its conditions holds. These simp lemmas turn the `isOk` of such a
chain into that conjunction, one check at a time, whatever the texts of its errors.
-/

namespace Barkis.Check

variable {ε : Type}

@[simp] theorem isOk_pure : (pure () : Except ε Unit).isOk = true := rfl

@[simp] theorem isOk_throw (e : ε) : (throw e : Except ε Unit).isOk = false := rfl

@[simp] theorem isOk_bind {x : Except ε Unit} {f : Unit → Except ε Unit} :
    (x >>= f).isOk = true ↔ x.isOk = true ∧ (f ()).isOk = true := by
  cases x with
  | error e => exact ⟨fun h => (Bool.false_ne_true h).elim, fun h => (Bool.false_ne_true h.1).elim⟩
  | ok u => exact ⟨fun h => ⟨rfl, h⟩, fun h => h.2⟩

/-- The last check: it passes when its condition fails. -/
@[simp] theorem isOk_ite_throw {c : Prop} [Decidable c] (e : ε) :
    (if c then (throw e : Except ε Unit) else pure ()).isOk = true ↔ ¬c := by
  by_cases h : c <;> simp [h]

/-- A check followed by the rest of the chain, which `do` copies into both branches: the chain
passes when the condition fails and the rest passes. -/
@[simp] theorem isOk_ite_throw_bind {c : Prop} [Decidable c] (e : ε) (f : Unit → Except ε Unit)
    (y : Except ε Unit) :
    (if c then (throw e : Except ε Unit) >>= f else y).isOk = true ↔ ¬c ∧ y.isOk = true := by
  by_cases h : c <;> simp [h]

/-- A bind returns a value exactly when its first step returns one that the rest maps to it. -/
theorem bind_eq_ok {α β : Type} {x : Except ε α} {f : α → Except ε β} {b : β} :
    x >>= f = .ok b ↔ ∃ a, x = .ok a ∧ f a = .ok b := by
  cases x with
  | error e => exact ⟨fun h => (nomatch h), fun ⟨_, h, _⟩ => (nomatch h)⟩
  | ok a => exact ⟨fun h => ⟨a, rfl, h⟩, fun ⟨_, h, h'⟩ => by cases h; exact h'⟩

end Barkis.Check
