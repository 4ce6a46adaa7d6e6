import HeaderRewrite.Cxx.Run

/-!
# Runs seen through a view

A run changes a state whose representation does not matter, and a view tells what does. Where every
step that returns does to the view what a function of the item and the view says, the run as a whole
does: the function is folded over the items, up to the first one at which it says to stop.

## Main definitions

* `transformAll`: the fold that can stop;
* `Simulates`: the steps do to the view what the function says.

## Main results

* `run_simulates`: a run that returns does to the view what the fold says;
* `transformAll_invariant`: what every item keeps, the fold keeps.
-/

namespace Cxx

variable {ι σ τ ρ : Type}

/-- Transform a view by the items in order. An item tells whether the ones after it are used. -/
def transformAll (transform : ι → τ → Bool × τ) : List ι → τ → τ
  | [], v => v
  | i :: items, v =>
    if (transform i v).1 then transformAll transform items (transform i v).2 else (transform i v).2

/-- What every item keeps, the fold keeps, wherever it stops. -/
theorem transformAll_invariant {transform : ι → τ → Bool × τ} {P : τ → Prop} {items : List ι}
    (htransform : ∀ i ∈ items, ∀ v, P v → P (transform i v).2) {v : τ} (hv : P v) :
    P (transformAll transform items v) := by
  induction items generalizing v with
  | nil => exact hv
  | cons i items ih =>
    obtain ⟨hi, hrest⟩ := List.forall_mem_cons.mp htransform
    rw [transformAll]
    split
    · exact ih hrest (hi v hv)
    · exact hi v hv

/-- A step that returns does to the view of its state what the function says, which is told to go on
exactly if the verdict is good. The steps keep an invariant of the states. -/
def Simulates (step : ι → σ → Outcome (ρ × σ)) (good : ρ → Bool) (P : σ → Prop) (view : σ → τ)
    (transform : ι → τ → Bool × τ) (i : ι) : Prop :=
  ∀ s r s', P s → step i s = .returned (r, s') →
    transform i (view s) = (good r, view s') ∧ P s'

/-- A run that returns does to the view of its state what the fold says. -/
theorem run_simulates {step : ι → σ → Outcome (ρ × σ)} {good : ρ → Bool} {P : σ → Prop}
    {view : σ → τ} {transform : ι → τ → Bool × τ} {items : List ι}
    (hsimulates : ∀ i ∈ items, Simulates step good P view transform i) {s t : σ} (hs : P s)
    (hrun : run step good items s = .returned t) :
    view t = transformAll transform items (view s) := by
  induction items generalizing s with
  | nil =>
    obtain rfl := Outcome.returned.inj hrun
    rfl
  | cons i items ih =>
    obtain ⟨hi, hrest⟩ := List.forall_mem_cons.mp hsimulates
    rw [run] at hrun
    cases hstep : step i s with
    | returned result =>
      obtain ⟨r, s'⟩ := result
      obtain ⟨htransform, hs'⟩ := hi s r s' hs hstep
      rw [hstep] at hrun
      rw [transformAll, htransform]
      -- the run and the fold go on or stop together
      cases hgood : good r with
      | true =>
        simp only [hgood, if_true] at hrun ⊢
        exact ih hrest hs' hrun
      | false =>
        simp only [hgood, Bool.false_eq_true, if_false, Outcome.returned.injEq] at hrun ⊢
        rw [hrun]
    | threw e =>
      rw [hstep] at hrun
      cases hrun
    | undefined u =>
      rw [hstep] at hrun
      cases hrun

end Cxx
