import Mathlib.Data.Option.Basic
import Mathlib.Tactic.Common

/-!
# Loops executed with a bound on their iterations

A `while` loop is given by its body `body : σ → Option σ`: `some t` is one more
iteration, which leaves the state `t`, and `none` means that the loop is left.
`steps` iterates the body, `exec` runs the loop and gives up when the bound is
used up. The rules below turn an invariant, a measure or an inescapable set of
states into facts about `exec`.
-/

namespace BoundedLoop

variable {σ : Type*} {body : σ → Option σ}

/-- The state after exactly `n` iterations, if the loop gets that far. -/
def steps (body : σ → Option σ) : ℕ → σ → Option σ
  | 0, s => some s
  | n + 1, s => (body s).bind (steps body n)

/-- The state in which the loop is left, if it is left within `bound` tests of
its condition. -/
def exec (body : σ → Option σ) : ℕ → σ → Option σ
  | 0, _ => none
  | bound + 1, s =>
      match body s with
      | none => some s
      | some t => exec body bound t

@[simp] theorem steps_zero (s : σ) : steps body 0 s = some s := rfl

theorem steps_succ (n : ℕ) (s : σ) :
    steps body (n + 1) s = (body s).bind (steps body n) := rfl

theorem steps_succ_right (n : ℕ) (s : σ) :
    steps body (n + 1) s = (steps body n s).bind body := by
  induction n generalizing s with
  | zero => cases h : body s <;> simp [steps, h]
  | succ n ih =>
      rw [steps_succ, steps_succ]
      cases h : body s with
      | none => simp
      | some t => simpa using ih t

/-- The loop is left within the bound exactly when some shorter sequence of
iterations ends in a state that the body refuses. -/
theorem exec_eq_some_iff {bound : ℕ} {s t : σ} :
    exec body bound s = some t ↔
      ∃ n < bound, steps body n s = some t ∧ body t = none := by
  induction bound generalizing s with
  | zero => simp [exec]
  | succ bound ih =>
      cases hs : body s with
      | none =>
          constructor
          · intro h
            have hst : s = t := by simpa [exec, hs] using h
            exact ⟨0, Nat.succ_pos _, by simp [hst], hst ▸ hs⟩
          · rintro ⟨n, -, hn, -⟩
            cases n with
            | zero => simpa [exec, hs] using hn
            | succ n => simp [steps_succ, hs] at hn
      | some u =>
          have hexec : exec body (bound + 1) s = exec body bound u := by
            simp [exec, hs]
          rw [hexec, ih]
          constructor
          · rintro ⟨n, hn, hsteps, hend⟩
            exact ⟨n + 1, by omega, by simpa [steps_succ, hs] using hsteps, hend⟩
          · rintro ⟨n, hn, hsteps, hend⟩
            cases n with
            | zero =>
                have hst : s = t := by simpa using hsteps
                rw [← hst, hs] at hend
                simp at hend
            | succ n =>
                exact ⟨n, by omega, by simpa [steps_succ, hs] using hsteps, hend⟩

/-- A measure that every iteration lowers bounds the number of iterations. -/
theorem exists_exec_of_measure (inv : σ → Prop) (measure : σ → ℕ)
    (hbody : ∀ s t, inv s → body s = some t → inv t ∧ measure t < measure s)
    {bound : ℕ} {s : σ} (hs : inv s) (hbound : measure s < bound) :
    ∃ t, exec body bound s = some t := by
  induction bound generalizing s with
  | zero => omega
  | succ bound ih =>
      cases hbs : body s with
      | none => exact ⟨s, by simp [exec, hbs]⟩
      | some u =>
          obtain ⟨hu, hlt⟩ := hbody s u hs hbs
          obtain ⟨t, ht⟩ := ih hu (by omega)
          exact ⟨t, by simpa [exec, hbs] using ht⟩

/-- A set of states that the body never refuses and never leaves traps the
loop: no bound is large enough. -/
theorem exec_eq_none_of_trapped (inv : σ → Prop)
    (hbody : ∀ s, inv s → ∃ t, body s = some t ∧ inv t) (bound : ℕ) {s : σ}
    (hs : inv s) : exec body bound s = none := by
  induction bound generalizing s with
  | zero => rfl
  | succ bound ih =>
      obtain ⟨t, ht, hinv⟩ := hbody s hs
      simpa [exec, ht] using ih hinv

/-- Loops whose bodies correspond along a map of states end in corresponding
states. -/
theorem exec_map {τ : Type*} {body' : τ → Option τ} (g : σ → τ)
    (hbody : ∀ s, body' (g s) = (body s).map g) (bound : ℕ) (s : σ) :
    exec body' bound (g s) = (exec body bound s).map g := by
  induction bound generalizing s with
  | zero => rfl
  | succ bound ih =>
      rw [exec, exec, hbody]
      cases body s with
      | none => rfl
      | some t => exact ih t

end BoundedLoop
