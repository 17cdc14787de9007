import Mathlib.Data.List.Basic
import Mathlib.Data.List.Perm.Subperm
import Mathlib.Tactic.Common

/-!
# The calls of several threads

The list has the calls of all threads in the order in which they begin. A thread
begins a call when its last one has come back, so only the last call of a thread
may be unfinished, and what the thread does now it does for that call.
-/

namespace SerialCalls

variable {τ ε γ : Type*} {thread : ε → τ} {done : ε → Prop} {calls before after : List ε}
  {c : ε} {t : τ} {f g : ε → Option γ}

def Serial (thread : ε → τ) (done : ε → Prop) (calls : List ε) : Prop :=
  calls.Pairwise fun c c' ↦ thread c = thread c' → done c

theorem serial_nil : Serial thread done [] := List.Pairwise.nil

/-- A thread begins a call. -/
theorem Serial.snoc (h : Serial thread done calls)
    (hdone : ∀ c' ∈ calls, thread c' = thread c → done c') : Serial thread done (calls ++ [c]) := by
  refine List.pairwise_append.mpr ⟨h, List.pairwise_singleton _ _, fun c' hc' d hd ↦ ?_⟩
  rw [List.mem_singleton.mp hd]
  exact hdone c' hc'

/-- An unfinished call is the last one of its thread. -/
theorem Serial.later_ne (h : Serial thread done (before ++ c :: after)) (hc : ¬ done c) :
    ∀ c' ∈ after, thread c' ≠ thread c := by
  intro c' hc' heq
  have hafter := (List.pairwise_cons.mp (List.pairwise_append.mp h).2.1).1
  exact hc (hafter c' hc' heq.symm)

/-- An unfinished call goes on. -/
theorem Serial.replace (h : Serial thread done (before ++ c :: after)) (hc : ¬ done c) (c' : ε)
    (hthread : thread c' = thread c) : Serial thread done (before ++ c' :: after) := by
  have hne := h.later_ne hc
  obtain ⟨hbefore, hrest, hacross⟩ := List.pairwise_append.mp h
  refine List.pairwise_append.mpr ⟨hbefore, List.pairwise_cons.mpr ⟨?_, ?_⟩, ?_⟩
  · intro d hd heq
    exact absurd (heq.symm.trans hthread) (hne d hd)
  · exact (List.pairwise_cons.mp hrest).2
  · intro d hd e he
    rcases List.mem_cons.mp he with rfl | he
    · rw [hthread]
      exact hacross d hd c List.mem_cons_self
    · exact hacross d hd e (List.mem_cons_of_mem c he)

section Gathered

variable [DecidableEq τ]

/-- What the calls of one thread come to, in order. -/
def gathered (thread : ε → τ) (f : ε → Option γ) (t : τ) (calls : List ε) : List γ :=
  (calls.filter fun c ↦ thread c = t).filterMap f

@[simp] theorem gathered_nil : gathered thread f t [] = [] := rfl

theorem gathered_append (calls calls' : List ε) : gathered thread f t (calls ++ calls') =
    gathered thread f t calls ++ gathered thread f t calls' := by
  rw [gathered, List.filter_append, List.filterMap_append]
  rfl

theorem gathered_cons (c : ε) (calls : List ε) : gathered thread f t (c :: calls) =
    (if thread c = t then (f c).toList else []) ++ gathered thread f t calls := by
  by_cases ht : thread c = t <;> cases hf : f c <;> simp [gathered, ht, hf]

theorem gathered_of_forall_ne (h : ∀ c ∈ calls, thread c ≠ t) : gathered thread f t calls = [] := by
  rw [gathered, List.filter_eq_nil_iff.mpr (by simpa using h), List.filterMap_nil]

theorem length_gathered_le (thread : ε → τ) (f : ε → Option γ) (t : τ) (calls : List ε) :
    (gathered thread f t calls).length ≤ (calls.map thread).count t := by
  refine Nat.le_trans (List.length_filterMap_le _ _) (Nat.le_of_eq ?_)
  rw [List.count, List.countP_map, List.countP_eq_length_filter]
  rfl

theorem gathered_replace_of_eq (c' : ε) (hthread : thread c' = thread c) (hf : f c' = f c) :
    gathered thread f t (before ++ c' :: after) = gathered thread f t (before ++ c :: after) := by
  simp only [gathered_append, gathered_cons, hthread, hf]

/-- What an unfinished call comes to now stands last. -/
theorem Serial.gathered_replace (h : Serial thread done (before ++ c :: after)) (hc : ¬ done c)
    (c' : ε) (hthread : thread c' = thread c) (hf : f c = none) (t : τ) :
    gathered thread f t (before ++ c' :: after) =
      gathered thread f t (before ++ c :: after) ++ if thread c = t then (f c').toList else [] := by
  simp only [gathered_append, gathered_cons, hthread, hf]
  by_cases ht : thread c = t
  · have hlater : ∀ d ∈ after, thread d ≠ t := fun d hd ↦ ht ▸ h.later_ne hc d hd
    simp [ht, gathered_of_forall_ne hlater]
  · simp [ht]

/-- `g` is what the calls come to when they are finished. -/
theorem Serial.gathered_prefix (h : Serial thread done calls) (hdone : ∀ c, done c → f c = g c)
    (hle : ∀ c, f c = none ∨ f c = g c) (t : τ) :
    gathered thread f t calls <+: gathered thread g t calls := by
  induction calls with
  | nil => exact List.prefix_rfl
  | cons c calls ih =>
      obtain ⟨hfirst, hrest⟩ := List.pairwise_cons.mp h
      rw [gathered_cons, gathered_cons]
      rcases hle c with hnone | heq
      · by_cases hlast : thread c = t ∧ f c ≠ g c
        · -- the call is unfinished and the last one of the thread
          obtain ⟨rfl, hne⟩ := hlast
          have hlater : ∀ c' ∈ calls, thread c' ≠ thread c := fun c' hc' heq ↦
            hne (hdone c (hfirst c' hc' heq.symm))
          rw [gathered_of_forall_ne hlater, hnone]
          simp
        · by_cases ht : thread c = t
          · rw [if_pos ht, if_pos ht, not_not.mp fun hne ↦ hlast ⟨ht, hne⟩]
            exact (List.prefix_append_right_inj _).mpr (ih hrest)
          · rw [if_neg ht, if_neg ht]
            exact ih hrest
      · rw [heq]
        exact (List.prefix_append_right_inj _).mpr (ih hrest)

/-- What all threads have come to is no more than the calls. -/
theorem length_le_of_gathered {order : List γ} {thread' : γ → τ}
    (h : ∀ t, order.filter (fun x ↦ thread' x = t) = gathered thread f t calls) :
    order.length ≤ calls.length := by
  have hsub : (order.map thread').Subperm (calls.map thread) := by
    rw [List.subperm_ext_iff]
    intro t _
    have hcount : (order.map thread').count t = (gathered thread f t calls).length := by
      rw [← h t, List.count, List.countP_map, List.countP_eq_length_filter]
      congr 1
    rw [hcount]
    exact length_gathered_le thread f t calls
  simpa using hsub.length_le

end Gathered

/-- Two lists of one length, paired, when an entry of the second changes. -/
theorem exists_zip_set {α β : Type*} {xs : List α} {ys : List β} (hlength : xs.length = ys.length)
    {i : ℕ} {y : β} (hy : ys[i]? = some y) (y' : β) :
    ∃ before x after, xs[i]? = some x ∧ xs.zip ys = before ++ (x, y) :: after ∧
      xs.zip (ys.set i y') = before ++ (x, y') :: after := by
  induction xs generalizing ys i with
  | nil =>
      obtain rfl := List.eq_nil_iff_length_eq_zero.mpr hlength.symm
      simp at hy
  | cons x xs ih =>
      cases ys with
      | nil => simp at hlength
      | cons y₀ ys =>
          cases i with
          | zero =>
              obtain rfl := Option.some.inj hy
              exact ⟨[], x, xs.zip ys, rfl, rfl, rfl⟩
          | succ i =>
              obtain ⟨before, x', after, hx, hzip, hset⟩ :=
                ih (Nat.succ.inj hlength) (i := i) (by simpa using hy)
              refine ⟨(x, y₀) :: before, x', after, by simpa using hx, ?_, ?_⟩
              · simp [hzip]
              · simp [hset]

end SerialCalls
