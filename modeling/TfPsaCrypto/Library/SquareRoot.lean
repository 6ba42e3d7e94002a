import Mathlib.FieldTheory.Finite.Basic

/-!
# Square roots modulo a prime

For a prime that is 3 modulo 4, a square root of `w` is a power of `w`; of the two roots one is even
and one is odd.
-/

namespace SquareRoot

theorem pow_eq_or_eq_neg {p : Nat} [Fact p.Prime] (hp : p % 4 = 3) (y : ZMod p) :
    (y ^ 2) ^ ((p + 1) / 4) = y ∨ (y ^ 2) ^ ((p + 1) / 4) = -y := by
  apply sq_eq_sq_iff_eq_or_eq_neg.mp
  have hexponent : 2 * ((p + 1) / 4) * 2 = p + 1 := by omega
  calc ((y ^ 2) ^ ((p + 1) / 4)) ^ 2 = y ^ (2 * ((p + 1) / 4) * 2) := by
        rw [← pow_mul, ← pow_mul, ← Nat.mul_assoc]
    _ = y ^ p * y := by rw [hexponent, pow_succ]
    _ = y ^ 2 := by rw [ZMod.pow_card, pow_two]

theorem pow_emod_eq {p : Nat} (hprime : p.Prime) (hp : p % 4 = 3) {w y : Int}
    (h : w ≡ y ^ 2 [ZMOD p]) (hy : 0 ≤ y) (hlt : y < p) :
    w ^ ((p + 1) / 4) % p = y ∨ w ^ ((p + 1) / 4) % p = p - y ∧ 0 < y := by
  have : Fact p.Prime := ⟨hprime⟩
  have hcast : (w : ZMod p) = (y : ZMod p) ^ 2 := by
    rw [← Int.cast_pow]
    exact (ZMod.intCast_eq_intCast_iff _ _ _).mpr h
  rcases pow_eq_or_eq_neg hp (y : ZMod p) with hroot | hroot
  · left
    rw [← Int.emod_eq_of_lt hy hlt]
    apply (ZMod.intCast_eq_intCast_iff _ _ _).mp
    rw [Int.cast_pow, hcast, hroot]
  · have hneg : w ^ ((p + 1) / 4) ≡ p - y [ZMOD p] := by
      apply (ZMod.intCast_eq_intCast_iff _ _ _).mp
      rw [Int.cast_pow, hcast, hroot]
      simp
    rcases hy.eq_or_lt with rfl | hpos
    · left
      have hzero : w ^ ((p + 1) / 4) ≡ 0 [ZMOD p] := by
        refine hneg.trans ?_
        rw [Int.sub_zero]
        exact Int.modEq_zero_iff_dvd.mpr dvd_rfl
      rw [hzero, Int.zero_emod]
    · right
      rw [hneg, Int.emod_eq_of_lt (by omega) (by omega)]
      exact ⟨rfl, hpos⟩

end SquareRoot
