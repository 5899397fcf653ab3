import Mathlib.Logic.Basic

/-!
# Runs and forward simulation

A component that takes inputs one at a time is a step function `σ → ι → σ × ω`; `runSteps` feeds
it a list of inputs and collects the outputs. Two components simulate each other on a run when a
relation between their states is kept by every step and the step outputs agree
(`runSteps_sim`); simulations compose (`Simulates.trans`).
-/

namespace Barkis.Simulation

variable {σ τ υ ι ω : Type*}

/-- Feed the inputs to the step function in order, collecting its outputs. -/
def runSteps (step : σ → ι → σ × ω) : σ → List ι → σ × List ω
  | s, [] => (s, [])
  | s, i :: is =>
    let r := runSteps step (step s i).1 is
    (r.1, (step s i).2 :: r.2)

@[simp]
theorem runSteps_nil (step : σ → ι → σ × ω) (s : σ) : runSteps step s [] = (s, []) := rfl

theorem runSteps_cons (step : σ → ι → σ × ω) (s : σ) (i : ι) (is : List ι) :
    runSteps step s (i :: is) =
      ((runSteps step (step s i).1 is).1, (step s i).2 :: (runSteps step (step s i).1 is).2) := rfl

theorem runSteps_append (step : σ → ι → σ × ω) (s : σ) (is js : List ι) :
    runSteps step s (is ++ js) =
      ((runSteps step (runSteps step s is).1 js).1,
        (runSteps step s is).2 ++ (runSteps step (runSteps step s is).1 js).2) := by
  induction is generalizing s with
  | nil => rfl
  | cons i is ih => rw [List.cons_append, runSteps_cons, ih, runSteps_cons, List.cons_append]

/-- `R` is a simulation of `stepA` by `stepB` on the inputs that satisfy `G`. -/
def Simulates (stepA : σ → ι → σ × ω) (stepB : τ → ι → τ × ω) (G : ι → Prop)
    (R : σ → τ → Prop) : Prop :=
  ∀ s t i, G i → R s t → R (stepA s i).1 (stepB t i).1 ∧ (stepA s i).2 = (stepB t i).2

variable {stepA : σ → ι → σ × ω} {stepB : τ → ι → τ × ω} {G : ι → Prop} {R : σ → τ → Prop}

/-- A simulation is kept over every run of inputs that satisfy `G`, and the runs answer alike. -/
theorem runSteps_sim (h : Simulates stepA stepB G R) :
    ∀ (is : List ι) (s : σ) (t : τ), (∀ i ∈ is, G i) → R s t →
      R (runSteps stepA s is).1 (runSteps stepB t is).1 ∧
        (runSteps stepA s is).2 = (runSteps stepB t is).2 := by
  intro is
  induction is with
  | nil => exact fun s t _ hR => ⟨hR, rfl⟩
  | cons i is ih =>
    intro s t hG hR
    obtain ⟨hR', hout⟩ := h s t i (hG i List.mem_cons_self) hR
    obtain ⟨hRun, houts⟩ := ih _ _ (fun j hj => hG j (List.mem_cons_of_mem i hj)) hR'
    rw [runSteps_cons, runSteps_cons, hout, houts]
    exact ⟨hRun, rfl⟩

/-- A simulation on some inputs is one on fewer. -/
theorem Simulates.mono {G' : ι → Prop} (h : Simulates stepA stepB G R) (hG : ∀ i, G' i → G i) :
    Simulates stepA stepB G' R :=
  fun s t i hi hR => h s t i (hG i hi) hR

/-- Two simulations in a row are one. -/
theorem Simulates.trans {stepC : υ → ι → υ × ω} {R' : τ → υ → Prop}
    (h : Simulates stepA stepB G R) (h' : Simulates stepB stepC G R') :
    Simulates stepA stepC G fun s u => ∃ t, R s t ∧ R' t u := by
  rintro s u i hG ⟨t, hR, hR'⟩
  obtain ⟨h1, h2⟩ := h s t i hG hR
  obtain ⟨h1', h2'⟩ := h' t u i hG hR'
  exact ⟨⟨_, h1, h1'⟩, h2.trans h2'⟩

end Barkis.Simulation
