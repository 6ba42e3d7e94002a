import Mathlib.Data.BitVec

/-!
# Bit fields by masking

Words that pack several fields, each selected by a mask. The side conditions are equations between
masks, which `decide` closes for literals.
-/

namespace Masks

variable {w : Nat} {x y m n k : BitVec w} {o : Nat}

theorem and_and_of_subset (h : m &&& k = k) : (x &&& m) &&& k = x &&& k := by
  rw [BitVec.and_assoc, h]

theorem and_and_of_disjoint (h : m &&& k = 0) : (x &&& m) &&& k = 0 := by
  rw [BitVec.and_assoc, h]
  exact BitVec.and_zero

theorem and_eq_of_subset (h : m &&& k = k) (hxy : x &&& m = y &&& m) :
    x &&& k = y &&& k := by
  rw [← and_and_of_subset (x := x) h, ← and_and_of_subset (x := y) h, hxy]

theorem and_split (x m : BitVec w) : (x &&& m) ||| (x &&& ~~~m) = x := by
  rw [← BitVec.and_or_distrib_left, BitVec.or_not_self, BitVec.and_allOnes]

theorem eq_of_and_eq (hin : x &&& m = y &&& m) (hout : x &&& ~~~m = y &&& ~~~m) :
    x = y := by
  rw [← and_split x m, ← and_split y m, hin, hout]

theorem eq_of_and_eq₃ (hm : x &&& m = y &&& m) (hn : x &&& n = y &&& n)
    (hk : x &&& k = y &&& k) (hcover : m ||| (n ||| k) = BitVec.allOnes w) :
    x = y := by
  have hall : x &&& (m ||| (n ||| k)) = y &&& (m ||| (n ||| k)) := by
    simp only [BitVec.and_or_distrib_left, hm, hn, hk]
  rwa [hcover, BitVec.and_allOnes, BitVec.and_allOnes] at hall

theorem and_eq_of_shift_eq (hm : m &&& BitVec.allOnes w <<< o = m)
    (h : (x &&& m) >>> o = (y &&& m) >>> o) : x &&& m = y &&& m := by
  have hback : ∀ z : BitVec w, (z &&& m) >>> o <<< o = z &&& m := by
    intro z
    rw [BitVec.shiftLeft_ushiftRight, BitVec.and_assoc, hm]
  rw [← hback x, ← hback y, h]

theorem toNat_shift_insert {b v : Nat} (hb : b + o ≤ w) :
    (((BitVec.ofNat w v <<< o) &&& (BitVec.ofNat w (2 ^ b - 1) <<< o)) >>> o).toNat
      = v % 2 ^ b := by
  have hbit : ∀ i, (((BitVec.ofNat w v <<< o) &&&
      (BitVec.ofNat w (2 ^ b - 1) <<< o)) >>> o).toNat.testBit i = (v % 2 ^ b).testBit i := by
    intro i
    rw [BitVec.testBit_toNat, BitVec.getLsbD_ushiftRight, BitVec.getLsbD_and,
      BitVec.getLsbD_shiftLeft, BitVec.getLsbD_shiftLeft, Nat.testBit_mod_two_pow,
      Nat.add_sub_cancel_left, BitVec.getLsbD_ofNat, BitVec.getLsbD_ofNat,
      Nat.testBit_two_pow_sub_one]
    by_cases hi : i < b
    · simp [hi, show o + i < w by omega, show i < w by omega, show ¬ o + i < o by omega]
    · simp [hi]
  exact Nat.eq_of_testBit_eq hbit

end Masks
