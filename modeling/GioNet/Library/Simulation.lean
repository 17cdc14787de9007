import Mathlib.Data.List.Basic
import Mathlib.Data.Option.Basic
import Mathlib.Tactic.Common

/-!
# Two machines with the same outputs

A machine takes an input, gives an output and goes on to its next state, or stops
for good. Two machines give the same outputs for all inputs if a relation of their
states is kept by every step.
-/

namespace Simulation

variable {σ τ ι ο : Type*} {step : σ → ι → Option (ο × σ)} {step' : τ → ι → Option (ο × τ)}
  {related : σ → τ → Prop} {allowed : ι → Prop} {s : σ} {t : τ} {inputs : List ι}

/-- The outputs up to the stop, and the state at the end if the machine does not stop. -/
def outputs (step : σ → ι → Option (ο × σ)) (s : σ) : List ι → List ο × Option σ
  | [] => ([], some s)
  | i :: inputs =>
      match step s i with
      | none => ([], none)
      | some (o, s') => (o :: (outputs step s' inputs).1, (outputs step s' inputs).2)

theorem outputs_of_none {i : ι} (h : step s i = none) :
    outputs step s (i :: inputs) = ([], none) := by
  rw [outputs, h]

theorem outputs_of_some {i : ι} {o : ο} {u : σ} (h : step s i = some (o, u)) :
    outputs step s (i :: inputs) =
      (o :: (outputs step u inputs).1, (outputs step u inputs).2) := by
  rw [outputs, h]

/-- One more input. -/
theorem outputs_snoc {i : ι} {o : ο} {u v : σ} (h : (outputs step s inputs).2 = some u)
    (hstep : step u i = some (o, v)) :
    outputs step s (inputs ++ [i]) = ((outputs step s inputs).1 ++ [o], some v) := by
  induction inputs generalizing s with
  | nil =>
      obtain rfl : s = u := Option.some.inj h
      exact outputs_of_some hstep
  | cons j inputs ih =>
      cases hj : step s j with
      | none =>
          rw [outputs_of_none hj] at h
          cases h
      | some x =>
          rw [outputs_of_some hj] at h
          rw [List.cons_append, outputs_of_some hj, outputs_of_some hj, ih h, List.cons_append]

/-- The machines stop together, or give the same output and go on to related states. -/
def Matches (related : σ → τ → Prop) (x : Option (ο × σ)) (y : Option (ο × τ)) : Prop :=
  Option.Rel (fun x y ↦ x.1 = y.1 ∧ related x.2 y.2) x y

theorem outputs_eq (hrelated : related s t) (hinputs : ∀ i ∈ inputs, allowed i)
    (hstep : ∀ s t i, related s t → allowed i → Matches related (step s i) (step' t i)) :
    (outputs step s inputs).1 = (outputs step' t inputs).1 ∧
      Option.Rel related (outputs step s inputs).2 (outputs step' t inputs).2 := by
  induction inputs generalizing s t with
  | nil => exact ⟨rfl, .some hrelated⟩
  | cons i inputs ih =>
      have hmatches := hstep s t i hrelated (hinputs i List.mem_cons_self)
      cases hs : step s i with
      | none =>
          rw [hs] at hmatches
          cases ht : step' t i with
          | none =>
              rw [outputs_of_none hs, outputs_of_none ht]
              exact ⟨rfl, .none⟩
          | some y =>
              rw [ht] at hmatches
              cases hmatches
      | some x =>
          rw [hs] at hmatches
          cases ht : step' t i with
          | none =>
              rw [ht] at hmatches
              cases hmatches
          | some y =>
              rw [ht] at hmatches
              cases hmatches with
              | some hxy =>
                  obtain ⟨houtputs, hend⟩ :=
                    ih hxy.2 fun j hj ↦ hinputs j (List.mem_cons_of_mem i hj)
                  rw [outputs_of_some hs, outputs_of_some ht]
                  exact ⟨congrArg₂ List.cons hxy.1 houtputs, hend⟩

theorem map_eq_of_rel {α : Type*} {f : σ → α} {g : τ → α} {x : Option σ} {y : Option τ}
    (h : Option.Rel related x y) (hsame : ∀ s t, related s t → f s = g t) : x.map f = y.map g := by
  cases h with
  | none => rfl
  | some hrelated => exact congrArg some (hsame _ _ hrelated)

end Simulation
