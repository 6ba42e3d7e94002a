import Mathlib.Data.Nat.ChineseRemainder
import Mathlib.FieldTheory.Finite.Basic

/-!
# RSA

Exponents modulo a product of two distinct primes: powers with congruent exponents, the private and
the public exponent, the recombination of the powers modulo the primes, and blinding.
-/

namespace Rsa

/-! ## Exponents modulo a prime -/

theorem pow_modEq {p : Nat} (hp : p.Prime) {x a b : Nat} (ha : 0 < a) (hb : 0 < b)
    (h : a ≡ b [MOD p - 1]) : x ^ a ≡ x ^ b [MOD p] := by
  have : Fact p.Prime := ⟨hp⟩
  apply (ZMod.natCast_eq_natCast_iff _ _ _).mp
  push_cast
  by_cases hx : (x : ZMod p) = 0
  · rw [hx, zero_pow ha.ne', zero_pow hb.ne']
  · exact pow_eq_pow_of_modEq h (ZMod.pow_card_sub_one_eq_one hx)

/-! ## Keys -/

structure Key (p q n e d : Nat) : Prop where
  prime_p : p.Prime
  prime_q : q.Prime
  odd_p : p % 2 = 1
  odd_q : q % 2 = 1
  ne : p ≠ q
  product : n = p * q
  inverse : e * d ≡ 1 [MOD Nat.lcm (p - 1) (q - 1)]

namespace Key

variable {p q n e d : Nat} (k : Key p q n e d)

include k

theorem three_le_p : 3 ≤ p := by
  have htwo := k.prime_p.two_le
  have hodd := k.odd_p
  omega

theorem three_le_q : 3 ≤ q := by
  have htwo := k.prime_q.two_le
  have hodd := k.odd_q
  omega

theorem odd_n : n % 2 = 1 := by
  rw [k.product, Nat.mul_mod, k.odd_p, k.odd_q]

theorem n_pos : 0 < n := by
  have hodd := k.odd_n
  omega

theorem coprime : p.Coprime q := (Nat.coprime_primes k.prime_p k.prime_q).mpr k.ne

theorem inverse_p : e * d ≡ 1 [MOD p - 1] := k.inverse.of_dvd (Nat.dvd_lcm_left _ _)

theorem inverse_q : e * d ≡ 1 [MOD q - 1] := k.inverse.of_dvd (Nat.dvd_lcm_right _ _)

theorem mod_p_pos : 0 < d % (p - 1) := by
  have hp := k.three_le_p
  have hinverse := k.inverse_p
  rw [Nat.pos_iff_ne_zero]
  intro hzero
  have hd : d ≡ 0 [MOD p - 1] := hzero
  have hone : 0 ≡ 1 [MOD p - 1] := (hd.mul_left e).symm.trans hinverse
  rw [Nat.ModEq, Nat.zero_mod, Nat.mod_eq_of_lt (by omega)] at hone
  cases hone

theorem mod_q_pos : 0 < d % (q - 1) := by
  have hq := k.three_le_q
  have hinverse := k.inverse_q
  rw [Nat.pos_iff_ne_zero]
  intro hzero
  have hd : d ≡ 0 [MOD q - 1] := hzero
  have hone : 0 ≡ 1 [MOD q - 1] := (hd.mul_left e).symm.trans hinverse
  rw [Nat.ModEq, Nat.zero_mod, Nat.mod_eq_of_lt (by omega)] at hone
  cases hone

theorem d_pos : 0 < d := by
  rw [Nat.pos_iff_ne_zero]
  rintro rfl
  have hpos := k.mod_p_pos
  rw [Nat.zero_mod] at hpos
  cases hpos

theorem symm : Key p q n d e :=
  { k with inverse := by rw [Nat.mul_comm]; exact k.inverse }

theorem e_pos : 0 < e := k.symm.d_pos

theorem modEq_of_primes {x y : Nat} (hp : x ≡ y [MOD p]) (hq : x ≡ y [MOD q]) :
    x ≡ y [MOD n] := by
  rw [k.product]
  exact (Nat.modEq_and_modEq_iff_modEq_mul k.coprime).mp ⟨hp, hq⟩

theorem pow_mul_modEq (x : Nat) : x ^ (e * d) ≡ x [MOD n] := by
  have hpos : 0 < e * d := Nat.mul_pos k.e_pos k.d_pos
  have hp := pow_modEq (x := x) k.prime_p hpos Nat.one_pos k.inverse_p
  have hq := pow_modEq (x := x) k.prime_q hpos Nat.one_pos k.inverse_q
  rw [pow_one] at hp hq
  exact k.modEq_of_primes hp hq

theorem pow_pow_modEq (x : Nat) : (x ^ d % n) ^ e ≡ x [MOD n] := by
  calc (x ^ d % n) ^ e ≡ (x ^ d) ^ e [MOD n] := (Nat.mod_modEq _ _).pow e
    _ = x ^ (e * d) := by rw [← pow_mul, Nat.mul_comm]
    _ ≡ x [MOD n] := k.pow_mul_modEq x

theorem pow_blinded (x r : Nat) : x ^ ((p - 1) * (q - 1) * r + d) ≡ x ^ d [MOD n] := by
  have hd := k.d_pos
  apply k.modEq_of_primes
  · apply pow_modEq k.prime_p (by omega) hd
    rw [Nat.mul_assoc]
    exact Nat.modEq_iff_dvd.mpr ⟨-((q - 1 : Nat) * r : Int), by push_cast; ring⟩
  · apply pow_modEq k.prime_q (by omega) hd
    exact Nat.modEq_iff_dvd.mpr ⟨-((p - 1 : Nat) * r : Int), by push_cast; ring⟩

theorem pow_blinded_p (x r : Nat) : x ^ ((p - 1) * r + d % (p - 1)) ≡ x ^ d [MOD p] := by
  have hpos := k.mod_p_pos
  apply pow_modEq k.prime_p (by omega) k.d_pos
  rw [Nat.ModEq, Nat.mul_add_mod, Nat.mod_mod]

theorem pow_blinded_q (x r : Nat) : x ^ ((q - 1) * r + d % (q - 1)) ≡ x ^ d [MOD q] := by
  have hpos := k.mod_q_pos
  apply pow_modEq k.prime_q (by omega) k.d_pos
  rw [Nat.ModEq, Nat.mul_add_mod, Nat.mod_mod]

end Key

/-! ## Recombination -/

/-- The number below `p * q` with the given remainders. -/
def garner (p q qInv tp tq : Int) : Int := (tp - tq) * qInv % p * q + tq

section Garner

variable {p q qInv tp tq : Int}

theorem garner_bounds (hp : 0 < p) (htq : 0 ≤ tq) (hlt : tq < q) :
    0 ≤ garner p q qInv tp tq ∧ garner p q qInv tp tq < p * q := by
  have hnonneg := Int.emod_nonneg ((tp - tq) * qInv) hp.ne'
  have hbound := Int.emod_lt_of_pos ((tp - tq) * qInv) hp
  unfold garner
  generalize (tp - tq) * qInv % p = r at hnonneg hbound ⊢
  have hq : 0 < q := htq.trans_lt hlt
  constructor
  · positivity
  · calc r * q + tq < r * q + q := by omega
      _ = (r + 1) * q := by ring
      _ ≤ p * q := Int.mul_le_mul_of_nonneg_right (by omega) hq.le

theorem garner_modEq_q : garner p q qInv tp tq ≡ tq [ZMOD q] := by
  unfold garner
  exact Int.modEq_iff_dvd.mpr ⟨-((tp - tq) * qInv % p), by ring⟩

theorem garner_modEq_p (hinv : q * qInv ≡ 1 [ZMOD p]) : garner p q qInv tp tq ≡ tp [ZMOD p] := by
  calc (tp - tq) * qInv % p * q + tq
      ≡ (tp - tq) * qInv * q + tq [ZMOD p] := ((Int.mod_modEq _ _).mul_right q).add_right tq
    _ = (tp - tq) * (q * qInv) + tq := by ring
    _ ≡ (tp - tq) * 1 + tq [ZMOD p] := (hinv.mul_left _).add_right tq
    _ = tp := by ring

theorem garner_eq {n x : Nat} {p q : Nat} {qInv tp tq : Int} (hcoprime : p.Coprime q)
    (hn : n = p * q) (hp : 0 < p) (hinv : (q : Int) * qInv ≡ 1 [ZMOD p]) (htq : 0 ≤ tq)
    (hlt : tq < q) (hxp : tp ≡ x [ZMOD p]) (hxq : tq ≡ x [ZMOD q]) :
    garner p q qInv tp tq = (x % n : Nat) := by
  obtain ⟨hnonneg, hbound⟩ :=
    @garner_bounds p q qInv tp tq (by exact_mod_cast hp) htq (by exact_mod_cast hlt)
  have hmodp : garner p q qInv tp tq ≡ x [ZMOD p] := (garner_modEq_p hinv).trans hxp
  have hmodq : garner p q qInv tp tq ≡ x [ZMOD q] := garner_modEq_q.trans hxq
  generalize garner p q qInv tp tq = g at hnonneg hbound hmodp hmodq ⊢
  obtain ⟨m, rfl⟩ := Int.eq_ofNat_of_zero_le hnonneg
  have hall : m ≡ x [MOD n] := by
    rw [hn]
    exact (Nat.modEq_and_modEq_iff_modEq_mul hcoprime).mp
      ⟨Int.natCast_modEq_iff.mp hmodp, Int.natCast_modEq_iff.mp hmodq⟩
  have hm : m < n := by
    rw [hn]
    exact_mod_cast hbound
  rw [← Nat.mod_eq_of_lt hm, hall]

theorem garner_inverse {n : Nat} {p q : Nat} (qInv : Int) {a a' b b' : Nat}
    (hcoprime : p.Coprime q) (hn : n = p * q) (hinv : (q : Int) * qInv ≡ 1 [ZMOD p])
    (hp : a * b ≡ 1 [MOD p]) (hq : a' * b' ≡ 1 [MOD q]) (ha : a' < q) (hb : b' < q)
    (hpos : 0 < p) :
    ∃ x y : Nat, garner p q qInv a a' = x ∧ garner p q qInv b b' = y ∧ x < n ∧
      x * y ≡ 1 [MOD n] := by
  have hpos' : (0 : Int) < p := by exact_mod_cast hpos
  obtain ⟨hx, hxlt⟩ := @garner_bounds p q qInv a a' hpos' (Int.natCast_nonneg a')
    (by exact_mod_cast ha)
  obtain ⟨hy, -⟩ := @garner_bounds p q qInv b b' hpos' (Int.natCast_nonneg b')
    (by exact_mod_cast hb)
  have hmodp : garner p q qInv a a' * garner p q qInv b b' ≡ 1 [ZMOD p] :=
    ((garner_modEq_p hinv).mul (garner_modEq_p hinv)).trans (Int.natCast_modEq_iff.mpr hp)
  have hmodq : garner p q qInv a a' * garner p q qInv b b' ≡ 1 [ZMOD q] :=
    (garner_modEq_q.mul garner_modEq_q).trans (Int.natCast_modEq_iff.mpr hq)
  obtain ⟨x, hxeq⟩ := Int.eq_ofNat_of_zero_le hx
  obtain ⟨y, hyeq⟩ := Int.eq_ofNat_of_zero_le hy
  rw [hxeq, hyeq] at hmodp hmodq
  refine ⟨x, y, hxeq, hyeq, ?_, ?_⟩
  · rw [hxeq] at hxlt
    rw [hn]
    exact_mod_cast hxlt
  rw [hn]
  apply (Nat.modEq_and_modEq_iff_modEq_mul hcoprime).mp
  constructor
  · exact Int.natCast_modEq_iff.mp (by exact_mod_cast hmodp)
  · exact Int.natCast_modEq_iff.mp (by exact_mod_cast hmodq)

end Garner

/-! ## Blinding -/

theorem blinding_square {n e vi vf : Nat} (h : vi * vf ^ e ≡ 1 [MOD n]) :
    vi * vi % n * (vf * vf) ^ e ≡ 1 [MOD n] := by
  calc vi * vi % n * (vf * vf) ^ e ≡ vi * vi * (vf * vf) ^ e [MOD n] :=
        (Nat.mod_modEq _ _).mul_right _
    _ = vi * vf ^ e * (vi * vf ^ e) := by rw [Nat.mul_pow]; ring
    _ ≡ 1 * 1 [MOD n] := h.mul h

theorem blinding_mod {n e vi vf : Nat} (h : vi * vf ^ e ≡ 1 [MOD n]) :
    vi * (vf % n) ^ e ≡ 1 [MOD n] :=
  (((Nat.mod_modEq vf n).pow e).mul_left vi).trans h

theorem blinding_fresh {n e a b : Nat} (h : a * b ≡ 1 [MOD n]) :
    b ^ e % n * a ^ e ≡ 1 [MOD n] := by
  calc b ^ e % n * a ^ e ≡ b ^ e * a ^ e [MOD n] := (Nat.mod_modEq _ _).mul_right _
    _ = (a * b) ^ e := by rw [Nat.mul_pow]; ring
    _ ≡ 1 ^ e [MOD n] := h.pow e
    _ = 1 := one_pow e

namespace Key

variable {p q n e d : Nat} (k : Key p q n e d)

include k

theorem unblind {x vi vf : Nat} (h : vi * vf ^ e ≡ 1 [MOD n]) :
    (x * vi % n) ^ d % n * vf ≡ x ^ d [MOD n] := by
  have hpair : vi ^ d * vf ≡ 1 [MOD n] := by
    calc vi ^ d * vf ≡ vi ^ d * vf ^ (e * d) [MOD n] := (k.pow_mul_modEq vf).symm.mul_left _
      _ = (vi * vf ^ e) ^ d := by rw [Nat.mul_pow, pow_mul]
      _ ≡ 1 ^ d [MOD n] := h.pow d
      _ = 1 := one_pow d
  calc (x * vi % n) ^ d % n * vf
      ≡ (x * vi) ^ d * vf [MOD n] :=
        ((Nat.mod_modEq _ _).trans ((Nat.mod_modEq _ _).pow d)).mul_right vf
    _ = x ^ d * (vi ^ d * vf) := by rw [Nat.mul_pow]; ring
    _ ≡ x ^ d * 1 [MOD n] := hpair.mul_left _
    _ = x ^ d := Nat.mul_one _

end Key

end Rsa
