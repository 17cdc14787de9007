import Mathlib.Data.List.Induction
import Mathlib.Order.Bounds.Basic
import Mathlib.Tactic.Common

/-!
# The longest contiguous prefix of a numbered stream

Numbered items arrive in any order, with gaps and repetitions. What a
reassembling receiver should know about the arrivals so far: the largest number,
the last copy under each number and the length of the prefix `1, …, k` without a
gap; and what it should release when the prefix grows.
-/

namespace Reassembly

variable {α : Type*}

def Seen (xs : List (ℕ × α)) (n : ℕ) : Prop := ∃ a, (n, a) ∈ xs

/-- The largest number that has arrived, `0` if none has. -/
def largest (xs : List (ℕ × α)) : ℕ := (xs.map Prod.fst).foldl max 0

def lastCopy (xs : List (ℕ × α)) (n : ℕ) : Option α :=
  ((xs.filter fun x ↦ x.1 == n).getLast?).map Prod.snd

/-- `k` is the largest number such that all of `1, …, k` have arrived. -/
def PrefixLength (xs : List (ℕ × α)) (k : ℕ) : Prop :=
  IsGreatest {k | ∀ j, 0 < j → j ≤ k → Seen xs j} k

/-- The items under the numbers `k + 1, …, k'`, in this order. -/
def released (xs : List (ℕ × α)) (k k' : ℕ) : List α :=
  (List.range' (k + 1) (k' - k)).filterMap (lastCopy xs)

variable {xs : List (ℕ × α)} {n k k' : ℕ} {a : α}

theorem seen_append_singleton {j : ℕ} : Seen (xs ++ [(n, a)]) j ↔ Seen xs j ∨ j = n := by
  constructor
  · rintro ⟨b, hb⟩
    rcases List.mem_append.mp hb with hb | hb
    · exact Or.inl ⟨b, hb⟩
    · exact Or.inr (congrArg Prod.fst (List.mem_singleton.mp hb))
  · rintro (⟨b, hb⟩ | rfl)
    · exact ⟨b, List.mem_append_left _ hb⟩
    · exact ⟨a, List.mem_append_right _ (List.mem_singleton.mpr rfl)⟩

theorem largest_append_singleton : largest (xs ++ [(n, a)]) = max (largest xs) n := by
  simp [largest]

theorem Seen.le_largest (h : Seen xs n) : n ≤ largest xs := by
  induction xs using List.reverseRecOn with
  | nil =>
      obtain ⟨a, ha⟩ := h
      simp at ha
  | append_singleton xs x ih =>
      obtain ⟨m, b⟩ := x
      rw [largest_append_singleton]
      rcases seen_append_singleton.mp h with h | rfl
      · exact (ih h).trans (Nat.le_max_left _ _)
      · exact Nat.le_max_right _ _

theorem lastCopy_append_singleton (j : ℕ) :
    lastCopy (xs ++ [(n, a)]) j = if j = n then some a else lastCopy xs j := by
  by_cases h : j = n
  · simp [lastCopy, h]
  · have hne : ¬ n = j := fun he ↦ h he.symm
    simp [lastCopy, h, hne]

theorem exists_lastCopy_iff : (∃ a, lastCopy xs n = some a) ↔ Seen xs n := by
  induction xs using List.reverseRecOn with
  | nil => simp [lastCopy, Seen]
  | append_singleton xs x ih =>
      obtain ⟨m, b⟩ := x
      rw [lastCopy_append_singleton, seen_append_singleton, ← ih]
      by_cases h : n = m <;> simp [h]

theorem prefixLength_iff :
    PrefixLength xs k ↔ (∀ j, 0 < j → j ≤ k → Seen xs j) ∧ ¬ Seen xs (k + 1) := by
  constructor
  · rintro ⟨hall, hgreatest⟩
    refine ⟨hall, fun hnext ↦ ?_⟩
    have hle : k + 1 ≤ k := by
      apply hgreatest
      intro j hj hjk
      rcases Nat.lt_or_eq_of_le hjk with hlt | rfl
      · exact hall j hj (by omega)
      · exact hnext
    omega
  · rintro ⟨hall, hnext⟩
    refine ⟨hall, fun j hj ↦ ?_⟩
    by_contra hlt
    exact hnext (hj (k + 1) (Nat.succ_pos k) (by omega))

theorem PrefixLength.unique (h : PrefixLength xs k) (h' : PrefixLength xs k') : k = k' :=
  IsGreatest.unique h h'

/-- A bound on the numbers that have arrived is one on the prefix. -/
theorem le_of_contiguous {N : ℕ} (hbound : ∀ j, Seen xs j → j ≤ N)
    (hall : ∀ j, 0 < j → j ≤ k → Seen xs j) : k ≤ N := by
  rcases Nat.eq_zero_or_pos k with rfl | hk
  · exact Nat.zero_le N
  · exact hbound k (hall k hk le_rfl)

/-- Numbers that follow the prefix one after the other extend it. -/
theorem contiguous_add {m : ℕ} (hall : ∀ j, 0 < j → j ≤ k → Seen xs j)
    (hnext : ∀ i < m, (∀ j, 0 < j → j ≤ k + i → Seen xs j) → Seen xs (k + i + 1)) :
    ∀ j, 0 < j → j ≤ k + m → Seen xs j := by
  induction m with
  | zero => exact hall
  | succ m ih =>
      have hprev := ih fun i hi ↦ hnext i (Nat.lt_succ_of_lt hi)
      intro j hj hle
      rcases Nat.lt_or_eq_of_le hle with hlt | rfl
      · exact hprev j hj (by omega)
      · exact hnext m (Nat.lt_succ_self m) hprev

theorem released_eq_of_lastCopy {as : List α}
    (h : ∀ i, (hi : i < as.length) → lastCopy xs (k + i + 1) = some as[i]) :
    released xs k (k + as.length) = as := by
  have hcopies : (List.range' (k + 1) as.length).map (lastCopy xs) = as.map some := by
    apply List.ext_getElem
    · simp
    · intro i hi hi'
      have hcopy := h i (by simpa using hi')
      simpa [Nat.add_right_comm] using hcopy
  calc released xs k (k + as.length)
      = ((List.range' (k + 1) as.length).map (lastCopy xs)).filterMap id := by
        simp [released, List.filterMap_map]
    _ = as := by
        rw [hcopies]
        simp [List.filterMap_map]

end Reassembly
