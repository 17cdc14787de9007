import Mathlib.Data.Nat.ModEq
import Mathlib.Tactic.Common
import Mathlib.Tactic.Ring

/-!
# Numbering a stream by a cycle of labels

The elements `1, 2, 3, …` of an unbounded stream carry the labels
`1, …, N, 1, …, N, …`; the label `0` is kept for "no element". Within a window
shorter than `N` the labels determine the elements, and comparing labels by the
half-range rule compares the elements.
-/

namespace CyclicNumber

/-- The label of the `n`-th element on a cycle of `N` labels; `0` has label `0`. -/
def label (N : ℕ) : ℕ → ℕ
  | 0 => 0
  | n + 1 => n % N + 1

/-- The label after a given one: `0` is skipped when the cycle starts again. -/
def next (N a : ℕ) : ℕ := if a = N then 1 else a + 1

/-- The half-range rule: `b` counts as not older than `a` when it is ahead by
less than `half` or behind by more than `half`. -/
def NotOlder (half a b : ℕ) : Prop :=
  if b < a then half < a - b else b - a < half

instance (half a b : ℕ) : Decidable (NotOlder half a b) := by
  unfold NotOlder
  infer_instance

variable {N m n : ℕ}

@[simp] theorem label_zero : label N 0 = 0 := rfl

theorem label_of_pos (hn : 0 < n) : label N n = (n - 1) % N + 1 := by
  cases n with
  | zero => omega
  | succ n => rfl

theorem label_pos (hn : 0 < n) : 0 < label N n := by
  rw [label_of_pos hn]
  omega

theorem label_le (hN : 0 < N) : label N n ≤ N := by
  cases n with
  | zero => simp
  | succ n => exact Nat.mod_lt n hN

theorem label_of_le (hn : n ≤ N) : label N n = n := by
  cases n with
  | zero => rfl
  | succ n => simp [label, Nat.mod_eq_of_lt hn]

theorem label_eq_zero_iff : label N n = 0 ↔ n = 0 := by
  cases n <;> simp [label]

theorem label_add_period (hn : 0 < n) : label N (n + N) = label N n := by
  rw [label_of_pos hn, label_of_pos (by omega), Nat.sub_add_comm hn, Nat.add_mod_right]

theorem label_succ (hN : 0 < N) : label N (n + 1) = next N (label N n) := by
  cases n with
  | zero =>
      unfold next
      split
      · simp_all
      · simp [label]
  | succ n =>
      have hlt := Nat.mod_lt n hN
      have hmod : (n + 1) % N = if n % N + 1 = N then 0 else n % N + 1 := by
        rw [Nat.add_mod_eq_ite]
        rcases Nat.lt_or_ge 1 N with h | h
        · rw [Nat.mod_eq_of_lt h]
          split <;> split <;> omega
        · have h1 : N = 1 := by omega
          subst h1
          simp [Nat.mod_one]
      simp only [label, next, hmod]
      split <;> simp_all

theorem modEq_of_label_eq (hm : 0 < m) (hn : 0 < n) (h : label N m = label N n) :
    m - 1 ≡ n - 1 [MOD N] := by
  rw [label_of_pos hm, label_of_pos hn] at h
  exact Nat.succ_injective h

/-- Within a window shorter than the period the label determines the element. -/
theorem eq_of_label_eq (hm : 0 < m) (hn : 0 < n) (hmn : m < n + N) (hnm : n < m + N)
    (h : label N m = label N n) : m = n := by
  have hmod := modEq_of_label_eq hm hn h
  rcases Nat.le_total m n with hle | hle
  · have hdvd := (Nat.modEq_iff_dvd' (by omega)).mp hmod
    have hzero := Nat.eq_zero_of_dvd_of_lt hdvd (by omega)
    omega
  · have hdvd := (Nat.modEq_iff_dvd' (by omega)).mp hmod.symm
    have hzero := Nat.eq_zero_of_dvd_of_lt hdvd (by omega)
    omega

/-- Labels of a stretch shorter than the period are the labels shifted, with
one wrap at most. -/
theorem label_add (hN : 0 < N) (hm : 0 < m) {d : ℕ} (hd : d < N) :
    label N (m + d) = if label N m + d ≤ N then label N m + d else label N m + d - N := by
  induction d with
  | zero =>
      have hle := label_le (n := m) hN
      simp [hle]
  | succ d ih =>
      have hle := label_le (n := m) hN
      have hpos := label_pos (N := N) hm
      rw [← Nat.add_assoc, label_succ hN, ih (by omega)]
      unfold next
      split <;> split <;> split <;> omega

/-- On a cycle of odd length `2 * half + 1`, the half-range rule on labels is the
order of the elements, as long as they are less than `half` apart. -/
theorem notOlder_label_iff {half : ℕ} (hN : N = 2 * half + 1) (hm : 0 < m) (hn : 0 < n)
    (hmn : m < n + half) (hnm : n < m + half) :
    NotOlder half (label N m) (label N n) ↔ m ≤ n := by
  have hNpos : 0 < N := by omega
  have hlm := label_le (n := m) hNpos
  have hln := label_le (n := n) hNpos
  have hpm := label_pos (N := N) hm
  have hpn := label_pos (N := N) hn
  unfold NotOlder
  rcases Nat.le_total m n with hle | hle
  · obtain ⟨d, rfl⟩ := Nat.exists_eq_add_of_le hle
    have hadd := label_add hNpos hm (d := d) (by omega)
    split at hadd <;> split <;> omega
  · obtain ⟨d, rfl⟩ := Nat.exists_eq_add_of_le hle
    have hadd := label_add hNpos hn (d := d) (by omega)
    split at hadd <;> split <;> omega

end CyclicNumber
