import Mathlib.Data.List.Basic
import Mathlib.Order.WellFounded
import Mathlib.Tactic.Common

/-!
# Runs of labelled transition systems

A run is the list of the labels of its steps, in order. The rules are the usual
ones: an invariant that every step preserves holds after every run, runs
compose, and there is no infinite run where every step makes a well-founded
measure smaller.
-/

namespace LabelledRun

variable {σ ℓ : Type*}

inductive Run (step : σ → ℓ → σ → Prop) (s : σ) : List ℓ → σ → Prop
  | nil : Run step s [] s
  | snoc {labels : List ℓ} {t u : σ} {l : ℓ} (run : Run step s labels t) (last : step t l u) :
      Run step s (labels ++ [l]) u

def Reaches (step : σ → ℓ → σ → Prop) (s t : σ) : Prop :=
  ∃ labels, Run step s labels t

variable {step step' : σ → ℓ → σ → Prop} {s t u : σ} {labels : List ℓ} {l : ℓ}

theorem Run.single (h : step s l t) : Run step s [l] t := .snoc .nil h

theorem Run.append {labels' : List ℓ} (h : Run step s labels t) (h' : Run step t labels' u) :
    Run step s (labels ++ labels') u := by
  induction h' with
  | nil => simpa using h
  | snoc _ last ih =>
      rw [← List.append_assoc]
      exact ih.snoc last

/-- A property that holds at the start and is preserved by every step holds
after every run. -/
theorem Run.invariant (inv : σ → Prop) (h : Run step s labels t) (hs : inv s)
    (hstep : ∀ t l u, inv t → step t l u → inv u) : inv t := by
  induction h with
  | nil => exact hs
  | snoc _ last ih => exact hstep _ _ _ ih last

/-- An invariant that only the steps with allowed labels preserve. -/
theorem Run.invariant_of_allowed (allowed : ℓ → Prop) (inv : σ → Prop)
    (h : Run step s labels t) (hlabels : ∀ l ∈ labels, allowed l) (hs : inv s)
    (hstep : ∀ t l u, inv t → allowed l → step t l u → inv u) : inv t := by
  induction h with
  | nil => exact hs
  | snoc _ last ih =>
      have hbefore := ih fun l hl ↦ hlabels l (List.mem_append_left _ hl)
      exact hstep _ _ _ hbefore (hlabels _ (by simp)) last

/-- An invariant that relates the state to the labels so far. -/
theorem Run.history_invariant (allowed : ℓ → Prop) (inv : List ℓ → σ → Prop)
    (h : Run step s labels t) (hlabels : ∀ l ∈ labels, allowed l) (hs : inv [] s)
    (hstep : ∀ labels t l u, inv labels t → allowed l → step t l u → inv (labels ++ [l]) u) :
    inv labels t := by
  induction h with
  | nil => exact hs
  | snoc _ last ih =>
      have hbefore := ih fun l hl ↦ hlabels l (List.mem_append_left _ hl)
      exact hstep _ _ _ _ hbefore (hlabels _ (by simp)) last

theorem Run.mono (h : Run step s labels t) (hstep : ∀ t l u, step t l u → step' t l u) :
    Run step' s labels t := by
  induction h with
  | nil => exact .nil
  | snoc _ last ih => exact ih.snoc (hstep _ _ _ last)

/-- What the last label adds to what is picked out of the labels. -/
theorem filterMap_snoc {α : Type*} (f : ℓ → Option α) (labels : List ℓ) (l : ℓ) :
    (labels ++ [l]).filterMap f = labels.filterMap f ++ (f l).toList := by
  rw [List.filterMap_append]
  cases hl : f l <;> simp [hl]

/-- The last label is the one in question, or that one stands before it. -/
theorem snoc_eq_append_cons {labels before after : List ℓ} {x y : ℓ}
    (h : labels ++ [x] = before ++ y :: after) :
    (labels = before ∧ x = y) ∨ ∃ after', labels = before ++ y :: after' := by
  rcases List.eq_nil_or_concat after with rfl | ⟨after', z, rfl⟩
  · obtain ⟨hlabels, hx⟩ := List.append_inj' h rfl
    exact .inl ⟨hlabels, List.singleton_inj.mp hx⟩
  · rw [List.concat_eq_append, ← List.cons_append, ← List.append_assoc] at h
    exact .inr ⟨after', (List.append_inj' h rfl).1⟩

theorem Reaches.refl (s : σ) : Reaches step s s := ⟨[], .nil⟩

theorem Reaches.single (h : step s l t) : Reaches step s t := ⟨[l], .single h⟩

theorem Reaches.trans (h : Reaches step s t) (h' : Reaches step t u) : Reaches step s u := by
  obtain ⟨labels, hrun⟩ := h
  obtain ⟨labels', hrun'⟩ := h'
  exact ⟨labels ++ labels', hrun.append hrun'⟩

theorem Reaches.tail (h : Reaches step s t) (h' : step t l u) : Reaches step s u :=
  h.trans (.single h')

theorem Reaches.mono (h : Reaches step s t) (hstep : ∀ t l u, step t l u → step' t l u) :
    Reaches step' s t := by
  obtain ⟨labels, hrun⟩ := h
  exact ⟨labels, hrun.mono hstep⟩

theorem Reaches.invariant (inv : σ → Prop) (h : Reaches step s t) (hs : inv s)
    (hstep : ∀ t l u, inv t → step t l u → inv u) : inv t := by
  obtain ⟨labels, hrun⟩ := h
  exact hrun.invariant inv hs hstep

/-! ## Runs that end -/

/-- Every run from `s` comes to a state without a further step. -/
def Ends (step : σ → ℓ → σ → Prop) (s : σ) : Prop :=
  Acc (fun u t ↦ ∃ l, step t l u) s

theorem Ends.not_infinite (h : Ends step s) {f : ℕ → σ} {g : ℕ → ℓ} (hstart : f 0 = s) :
    ¬ ∀ n, step (f n) (g n) (f (n + 1)) := by
  induction h generalizing f g with
  | intro s _ ih =>
      intro hsteps
      subst hstart
      exact ih (f 1) ⟨g 0, hsteps 0⟩ (f := fun n ↦ f (n + 1)) (g := fun n ↦ g (n + 1)) rfl
        fun n ↦ hsteps (n + 1)

theorem Ends.exists_final (h : Ends step s) :
    ∃ t, Reaches step s t ∧ ∀ l u, ¬ step t l u := by
  induction h with
  | intro s _ ih =>
      by_cases hfinal : ∀ l u, ¬ step s l u
      · exact ⟨s, .refl s, hfinal⟩
      · simp only [not_forall, not_not] at hfinal
        obtain ⟨l, u, hstep⟩ := hfinal
        obtain ⟨t, hreach, ht⟩ := ih u ⟨l, hstep⟩
        exact ⟨t, (Reaches.single hstep).trans hreach, ht⟩

/-- A measure that every step from a state with the invariant makes smaller. -/
theorem ends_of_decreases {α : Type*} [LT α] [WellFoundedLT α] (inv : σ → Prop) (measure : σ → α)
    (hs : inv s) (hstep : ∀ t l u, inv t → step t l u → inv u ∧ measure u < measure t) :
    Ends step s := by
  induction hm : measure s using WellFoundedLT.induction generalizing s with
  | ind m ih =>
      refine ⟨s, ?_⟩
      rintro u ⟨l, hu⟩
      obtain ⟨hinv, hlt⟩ := hstep s l u hs hu
      exact ih (measure u) (hm ▸ hlt) hinv rfl

end LabelledRun
