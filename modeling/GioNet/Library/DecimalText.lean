import Mathlib.Data.List.Basic
import Mathlib.Data.Nat.Digits.Defs
import Mathlib.Tactic.Common

/-!
# Numbers as decimal texts

Texts are strings of bytes in ASCII. Several numbers are written with a separator
between them.
-/

namespace DecimalText

variable {sep : UInt8} {m n : ℕ} {numbers : List ℕ}

def isDigit (b : UInt8) : Bool := (48 ≤ b) && (b ≤ 57)

def decimal (n : ℕ) : List UInt8 := (Nat.toDigits 10 n).map fun c ↦ c.toNat.toUInt8

/-- The number that a decimal text stands for. -/
def ofDecimal (text : List UInt8) : Option ℕ :=
  if text ≠ [] ∧ text.all isDigit then some (text.foldl (fun n b ↦ 10 * n + (b.toNat - 48)) 0)
  else none

def joined (sep : UInt8) (numbers : List ℕ) : List UInt8 := [sep].intercalate (numbers.map decimal)

def separated (sep : UInt8) (text : List UInt8) : Option (List ℕ) :=
  (text.splitOn sep).mapM ofDecimal

theorem decimal_ne_nil (n : ℕ) : decimal n ≠ [] := by
  simp [decimal]

theorem length_decimal_le_iff {k : ℕ} (hk : 0 < k) : (decimal n).length ≤ k ↔ n < 10 ^ k := by
  rw [decimal, List.length_map, Nat.length_toDigits_le_iff (by decide) hk]

/-- A digit has one byte. -/
theorem digit_bounds {c : Char} (h : c.isDigit = true) : 48 ≤ c.toNat ∧ c.toNat ≤ 57 := by
  rw [Char.isDigit, Bool.and_eq_true, decide_eq_true_eq, decide_eq_true_eq] at h
  exact ⟨UInt32.le_iff_toNat_le.mp h.1, UInt32.le_iff_toNat_le.mp h.2⟩

theorem toNat_digit {c : Char} (h : c.isDigit = true) : c.toNat.toUInt8.toNat = c.toNat := by
  have hbounds := digit_bounds h
  exact Nat.mod_eq_of_lt (by omega)

theorem isDigit_of_mem_decimal {b : UInt8} (h : b ∈ decimal n) : isDigit b = true := by
  obtain ⟨c, hc, rfl⟩ := List.mem_map.mp h
  have hdigit := Nat.isDigit_of_mem_toDigits (by decide) (by decide) hc
  have hbounds := digit_bounds hdigit
  rw [isDigit, Bool.and_eq_true, decide_eq_true_eq, decide_eq_true_eq, UInt8.le_iff_toNat_le,
    UInt8.le_iff_toNat_le, toNat_digit hdigit]
  exact hbounds

@[simp] theorem ofDecimal_decimal (n : ℕ) : ofDecimal (decimal n) = some n := by
  have hall : (decimal n).all isDigit = true :=
    List.all_eq_true.mpr fun _ hb ↦ isDigit_of_mem_decimal hb
  have hvalue : (decimal n).foldl (fun n b ↦ 10 * n + (b.toNat - 48)) 0 =
      Nat.ofDigitChars 10 (Nat.toDigits 10 n) 0 := by
    rw [decimal, List.foldl_map, Nat.ofDigitChars_eq_foldl]
    refine List.foldl_ext _ _ _ fun m c hc ↦ ?_
    rw [toNat_digit (Nat.isDigit_of_mem_toDigits (by decide) (by decide) hc)]
    rfl
  rw [ofDecimal, if_pos ⟨decimal_ne_nil n, hall⟩, hvalue, Nat.ofDigitChars_ten_toDigits]

theorem decimal_injective : Function.Injective decimal := by
  intro m n h
  simpa using congrArg ofDecimal h

theorem mapM_ofDecimal (numbers : List ℕ) :
    (numbers.map decimal).mapM ofDecimal = some numbers := by
  induction numbers with
  | nil => rfl
  | cons n numbers ih => simp [List.mapM_cons, ih]

theorem notMem_decimal (hsep : isDigit sep = false) (n : ℕ) : sep ∉ decimal n := by
  intro hmem
  rw [isDigit_of_mem_decimal hmem] at hsep
  cases hsep

/-- A separator that is no digit tells where the numbers end. -/
theorem separated_joined (hsep : isDigit sep = false) (hne : numbers ≠ []) :
    separated sep (joined sep numbers) = some numbers := by
  rw [separated, joined, List.splitOn_intercalate, mapM_ofDecimal]
  · intro text htext
    obtain ⟨n, -, rfl⟩ := List.mem_map.mp htext
    exact notMem_decimal hsep n
  · simpa using hne

/-- Whether a text starts with some digits is decided by its first number, if that
number is not longer. -/
theorem decimal_prefix_iff (hsep : isDigit sep = false) (rest : List UInt8)
    (hlen : (decimal n).length ≤ (decimal m).length) :
    decimal m <+: decimal n ++ sep :: rest ↔ m = n := by
  constructor
  · intro h
    obtain ⟨more, hmore⟩ : decimal n <+: decimal m :=
      List.prefix_of_prefix_length_le (List.prefix_append _ _) h hlen
    rw [← hmore, List.prefix_append_right_inj] at h
    cases more with
    | nil => exact decimal_injective (by simpa using hmore.symm)
    | cons b more =>
        obtain rfl : b = sep := (List.cons_prefix_cons.mp h).1
        exact absurd (hmore ▸ by simp) (notMem_decimal hsep m)
  · rintro rfl
    exact List.prefix_append _ _

end DecimalText
