import Mathlib.Data.Nat.Bitwise
import Mathlib.Data.UInt
import Mathlib.Tactic.Common

/-!
# Words assembled bit by bit

A 32-bit word that starts at zero and has `1 << i` or-ed in for every `i` that
passes a test has exactly those bits set.
-/

namespace BitFold

theorem shift_toNat {i : ℕ} (hi : i < 32) : ((1 : UInt32) <<< UInt32.ofNat i).toNat = 2 ^ i := by
  have hpow : 2 ^ i < 2 ^ 32 := Nat.pow_lt_pow_right (by omega) hi
  rw [UInt32.toNat_shiftLeft, UInt32.toNat_ofNat', Nat.mod_eq_of_lt (a := i) (by omega),
    Nat.mod_eq_of_lt hi, Nat.mod_eq_of_lt]
  · simp [Nat.shiftLeft_eq]
  · simpa [Nat.shiftLeft_eq] using hpow

/-- The test `word & 1 << i` reads the bit `i`. -/
theorem and_shift_ne_zero_iff (word : UInt32) {i : ℕ} (hi : i < 32) :
    (word &&& (1 <<< UInt32.ofNat i)) ≠ 0 ↔ word.toNat.testBit i = true := by
  rw [Ne, ← UInt32.toNat_inj, UInt32.toNat_and, shift_toNat hi, Nat.and_two_pow]
  cases word.toNat.testBit i <;> simp

theorem testBit_or_shift (word : UInt32) {i : ℕ} (hi : i < 32) (j : ℕ) :
    (word ||| (1 <<< UInt32.ofNat i)).toNat.testBit j =
      (word.toNat.testBit j || decide (i = j)) := by
  rw [UInt32.toNat_or, Nat.testBit_or, shift_toNat hi, Nat.testBit_two_pow]

/-- Or-ing in the positions below `count` that pass `test`. -/
def collect (test : ℕ → Bool) (count : ℕ) : UInt32 :=
  (List.range count).foldl
    (fun word i ↦ if test i then word ||| (1 <<< UInt32.ofNat i) else word) 0

theorem testBit_collect_succ (test : ℕ → Bool) {count : ℕ} (hcount : count < 32) (j : ℕ) :
    (collect test (count + 1)).toNat.testBit j =
      ((collect test count).toNat.testBit j || (test count && decide (count = j))) := by
  have hstep : collect test (count + 1) =
      if test count then collect test count ||| (1 <<< UInt32.ofNat count)
      else collect test count := by
    simp [collect, List.range_succ]
  rw [hstep]
  cases test count with
  | true => rw [if_pos rfl, testBit_or_shift _ hcount, Bool.true_and]
  | false => simp

theorem testBit_collect (test : ℕ → Bool) {count : ℕ} (hcount : count ≤ 32) (j : ℕ) :
    (collect test count).toNat.testBit j = (decide (j < count) && test j) := by
  induction count with
  | zero => simp [collect]
  | succ count ih =>
      rw [testBit_collect_succ test (by omega), ih (by omega)]
      rcases Nat.lt_trichotomy j count with hlt | rfl | hgt
      · have hne : count ≠ j := by omega
        simp [hlt, hne, Nat.lt_succ_of_lt hlt]
      · simp
      · have hne : count ≠ j := by omega
        simp [hne, show ¬ j < count by omega, show ¬ j < count + 1 by omega]

end BitFold
