import Mathlib.Data.Nat.Digits.Defs
import Mathlib.Data.UInt
import Mathlib.Tactic.Common

/-!
# Little-endian numbers of a fixed width

A number is the list of its base-256 digits, least significant first. The
encoding has the width it is asked for and drops what does not fit; reading back
what was encoded gives the number, and encoding what was read gives the bytes.
-/

namespace LittleEndian

def encode : ℕ → ℕ → List UInt8
  | 0, _ => []
  | width + 1, n => UInt8.ofNat n :: encode width (n / 256)

def decode (bytes : List UInt8) : ℕ := Nat.ofDigits 256 (bytes.map UInt8.toNat)

@[simp] theorem encode_length (width n : ℕ) : (encode width n).length = width := by
  induction width generalizing n with
  | zero => rfl
  | succ width ih => simp [encode, ih]

@[simp] theorem decode_nil : decode [] = 0 := rfl

theorem decode_cons (b : UInt8) (bytes : List UInt8) :
    decode (b :: bytes) = b.toNat + 256 * decode bytes := rfl

theorem decode_lt (bytes : List UInt8) : decode bytes < 256 ^ bytes.length := by
  have hdigits : ∀ d ∈ bytes.map UInt8.toNat, d < 256 := by
    intro d hd
    obtain ⟨b, -, rfl⟩ := List.mem_map.mp hd
    exact b.toNat_lt
  have hlt := Nat.ofDigits_lt_base_pow_length (b := 256) (by decide) hdigits
  rwa [List.length_map] at hlt

theorem decode_encode {width n : ℕ} (hn : n < 256 ^ width) : decode (encode width n) = n := by
  induction width generalizing n with
  | zero =>
      have hzero : n = 0 := by simpa using hn
      rw [hzero]
      rfl
  | succ width ih =>
      have hdiv : n / 256 < 256 ^ width := by
        rw [Nat.div_lt_iff_lt_mul (by decide)]
        rwa [pow_succ] at hn
      rw [encode, decode_cons, ih hdiv, UInt8.toNat_ofNat']
      exact Nat.mod_add_div n 256

theorem encode_decode (bytes : List UInt8) : encode bytes.length (decode bytes) = bytes := by
  induction bytes with
  | nil => rfl
  | cons b bytes ih =>
      have hb : b.toNat < 256 := b.toNat_lt
      have hdiv : decode (b :: bytes) / 256 = decode bytes := by
        rw [decode_cons]
        omega
      have hhead : UInt8.ofNat (decode (b :: bytes)) = b := by
        apply UInt8.toNat_inj.mp
        rw [UInt8.toNat_ofNat', decode_cons]
        omega
      rw [List.length_cons, encode, hdiv, hhead, ih]

end LittleEndian
