import Mathlib.Algebra.CharP.Algebra
import Mathlib.Algebra.Field.ZMod
import Mathlib.Data.Nat.Bitwise
import Mathlib.RingTheory.AdjoinRoot

/-!
# Bit strings as elements of a binary ring

A bit string is the sum of the powers of an element at its bits that are set. Over the ring with
the 2^128 residues of a polynomial of degree 128, every element is one string of 128 bits.
-/

namespace BinaryField

open Polynomial

/-! ## Sums of powers -/

section Sums

variable {R : Type} [CommRing R] (α : R)

/-- The sum of `α ^ i` over the bits `i < n` that are set. -/
def ofBits (n : Nat) (b : Nat → Bool) : R := ∑ i ∈ Finset.range n, if b i then α ^ i else 0

@[simp] theorem ofBits_zero (b : Nat → Bool) : ofBits α 0 b = 0 := rfl

theorem ofBits_congr {n : Nat} {a b : Nat → Bool} (h : ∀ i, i < n → a i = b i) :
    ofBits α n a = ofBits α n b := by
  apply Finset.sum_congr rfl
  intro i hi
  rw [h i (Finset.mem_range.mp hi)]

@[simp] theorem ofBits_false (n : Nat) : ofBits α n (fun _ => false) = 0 := by
  unfold ofBits
  simp

theorem ofBits_add (m n : Nat) (b : Nat → Bool) :
    ofBits α (m + n) b = ofBits α m b + α ^ m * ofBits α n (fun i => b (m + i)) := by
  unfold ofBits
  rw [Finset.sum_range_add, Finset.mul_sum]
  congr 1
  apply Finset.sum_congr rfl
  intro i _
  split
  · rw [pow_add]
  · rw [mul_zero]

theorem ofBits_xor [CharP R 2] (n : Nat) (a b : Nat → Bool) :
    ofBits α n (fun i => a i ^^ b i) = ofBits α n a + ofBits α n b := by
  unfold ofBits
  rw [← Finset.sum_add_distrib]
  apply Finset.sum_congr rfl
  intro i _
  show (if (a i ^^ b i) then α ^ i else 0) = (if a i then α ^ i else 0) + if b i then α ^ i else 0
  cases a i <;> cases b i <;> simp [CharTwo.add_self_eq_zero]

end Sums

/-! ## Numbers, from either end -/

section Numbers

variable {R : Type} [CommRing R] (α : R)

/-- Bit `i` of the number is the coefficient of `α ^ i`. -/
def ofLow (n v : Nat) : R := ofBits α n v.testBit

/-- The highest of the `n` bits of the number is the coefficient of `α ^ 0`. -/
def ofHigh (n v : Nat) : R := ofBits α n fun i => v.testBit (n - 1 - i)

theorem ofLow_xor [CharP R 2] (n v u : Nat) : ofLow α n (v ^^^ u) = ofLow α n v + ofLow α n u := by
  unfold ofLow
  rw [← ofBits_xor]
  exact ofBits_congr α fun i _ => Nat.testBit_xor v u i

theorem ofHigh_xor [CharP R 2] (n v u : Nat) :
    ofHigh α n (v ^^^ u) = ofHigh α n v + ofHigh α n u := by
  unfold ofHigh
  rw [← ofBits_xor]
  exact ofBits_congr α fun i _ => Nat.testBit_xor v u _

@[simp] theorem ofLow_zero (n : Nat) : ofLow α n 0 = 0 := by
  unfold ofLow
  rw [ofBits_congr α (fun i _ => Nat.zero_testBit i), ofBits_false]

@[simp] theorem ofHigh_zero (n : Nat) : ofHigh α n 0 = 0 := by
  unfold ofHigh
  rw [ofBits_congr α (fun i _ => Nat.zero_testBit _), ofBits_false]

theorem ofHigh_append (m : Nat) {n b : Nat} (a : Nat) (hb : b < 2 ^ n) :
    ofHigh α (m + n) (2 ^ n * a + b) = ofHigh α m a + α ^ m * ofHigh α n b := by
  unfold ofHigh
  rw [ofBits_add]
  congr 1
  · apply ofBits_congr
    intro i hi
    rw [Nat.testBit_two_pow_mul_add a hb, if_neg (by omega)]
    congr 1
    omega
  · congr 1
    apply ofBits_congr
    intro i hi
    rw [Nat.testBit_two_pow_mul_add a hb, if_pos (by omega)]
    congr 1
    omega

theorem ofHigh_of_lt (m : Nat) {n b : Nat} (hb : b < 2 ^ n) :
    ofHigh α (m + n) b = α ^ m * ofHigh α n b := by
  have h := ofHigh_append α m 0 hb
  rwa [Nat.mul_zero, Nat.zero_add, ofHigh_zero, zero_add] at h

theorem ofHigh_mul (m n a : Nat) : ofHigh α (m + n) (2 ^ n * a) = ofHigh α m a := by
  have h := ofHigh_append α m a (Nat.two_pow_pos n)
  rwa [Nat.add_zero, ofHigh_zero, mul_zero, add_zero] at h

theorem ofHigh_two_pow {m k : Nat} (h : k < m) : ofHigh α m (2 ^ k) = α ^ (m - 1 - k) := by
  have hone : ofHigh α 1 1 = 1 := by
    unfold ofHigh ofBits
    simp
  have hmul := ofHigh_mul α (m - k) k 1
  have hlow := ofHigh_of_lt α (m - k - 1) (n := 1) (b := 1) (by decide)
  rw [Nat.sub_add_cancel (Nat.le_of_lt h), Nat.mul_one] at hmul
  rw [Nat.sub_add_cancel (by omega), hone, mul_one] at hlow
  rw [hmul, hlow]
  congr 1
  omega

theorem ofHigh_shiftRight (n : Nat) {k v : Nat} (hv : v < 2 ^ (n + k)) :
    α ^ k * ofHigh α (n + k) v =
      ofHigh α (n + k) (v >>> k) + α ^ (n + k) * ofHigh α k (v % 2 ^ k) := by
  have hquot : v / 2 ^ k < 2 ^ n := by
    rwa [Nat.div_lt_iff_lt_mul (Nat.two_pow_pos k), ← Nat.pow_add]
  have hsplit := ofHigh_append α n (v / 2 ^ k) (Nat.mod_lt v (Nat.two_pow_pos k))
  have hlow := ofHigh_of_lt α k hquot
  rw [Nat.div_add_mod] at hsplit
  rw [Nat.add_comm k n] at hlow
  rw [hsplit, Nat.shiftRight_eq_div_pow, hlow]
  ring

theorem ofLow_append (m : Nat) {n b : Nat} (a : Nat) (hb : b < 2 ^ n) :
    ofLow α (n + m) (2 ^ n * a + b) = ofLow α n b + α ^ n * ofLow α m a := by
  unfold ofLow
  rw [ofBits_add]
  congr 1
  · apply ofBits_congr
    intro i hi
    rw [Nat.testBit_two_pow_mul_add a hb, if_pos hi]
  · congr 1
    apply ofBits_congr
    intro i _
    rw [Nat.testBit_two_pow_mul_add a hb, if_neg (by omega), Nat.add_sub_cancel_left]

theorem ofLow_mul (m n a : Nat) : ofLow α (n + m) (2 ^ n * a) = α ^ n * ofLow α m a := by
  have h := ofLow_append α m a (Nat.two_pow_pos n)
  rwa [Nat.add_zero, ofLow_zero, zero_add] at h

theorem ofHigh_foldl_xor [CharP R 2] (m r n : Nat) (c : Nat → Nat) (bit : Nat → Bool) :
    ofHigh α m ((List.range n).foldl (fun v i => v ^^^ if bit i then c i else 0) r) =
      ofHigh α m r + ∑ i ∈ Finset.range n, if bit i then ofHigh α m (c i) else 0 := by
  induction n with
  | zero => simp
  | succ n ih =>
    rw [List.range_succ, List.foldl_append, List.foldl_cons, List.foldl_nil, ofHigh_xor, ih,
      Finset.sum_range_succ, add_assoc]
    congr 2
    split
    · rfl
    · exact ofHigh_zero α m

theorem ofHigh_table [CharP R 2] {k : R} {m n : Nat} {c : Nat → Nat}
    (hc : ∀ i, i < n → ofHigh α m (c i) = k * α ^ i) (r : Nat) :
    ofHigh α m
        ((List.range n).foldl (fun v i => v ^^^ if r.testBit (n - 1 - i) then c i else 0) 0) =
      k * ofHigh α n r := by
  rw [ofHigh_foldl_xor α m 0 n c fun i => r.testBit (n - 1 - i), ofHigh_zero, zero_add]
  unfold ofHigh ofBits
  rw [Finset.mul_sum]
  apply Finset.sum_congr rfl
  intro i hi
  split
  · exact hc i (Finset.mem_range.mp hi)
  · rw [mul_zero]

end Numbers

theorem root_pow_add {S : Type} [CommRing S] {f g : S[X]} {n : Nat} (h : f = X ^ n + g) :
    AdjoinRoot.root f ^ n + AdjoinRoot.mk f g = 0 := by
  have hself : AdjoinRoot.mk f (X ^ n + g) = 0 := by
    rw [← h]
    exact AdjoinRoot.mk_self
  rwa [map_add, map_pow, AdjoinRoot.mk_X] at hself

/-! ## The residues of `X^128 + X^7 + X^2 + X + 1` -/

noncomputable section

def modulus : (ZMod 2)[X] := X ^ 128 + X ^ 7 + X ^ 2 + X + 1

theorem modulus_eq : modulus = X ^ 128 + (X ^ 7 + X ^ 2 + X + 1) := by
  unfold modulus
  ring

theorem modulus_monic : modulus.Monic := by
  unfold modulus
  monicity!

theorem modulus_natDegree : modulus.natDegree = 128 := by
  unfold modulus
  compute_degree!

theorem modulus_degree : modulus.degree = ((128 : Nat) : WithBot Nat) := by
  rw [degree_eq_natDegree modulus_monic.ne_zero, modulus_natDegree]

abbrev GF128 := AdjoinRoot modulus

/-- The residue of `X`. -/
abbrev x : GF128 := AdjoinRoot.root modulus

instance : CharP GF128 2 := by
  have hinj : Function.Injective (algebraMap (ZMod 2) GF128) :=
    AdjoinRoot.of.injective_of_degree_ne_zero (by
      rw [modulus_degree]
      decide)
  exact charP_of_injective_algebraMap hinj 2

set_option maxRecDepth 4096 in
theorem x_pow : x ^ 128 = x ^ 7 + x ^ 2 + x + 1 := by
  have hsum := root_pow_add modulus_eq
  rw [map_add, map_add, map_add, map_pow, map_pow, map_one, AdjoinRoot.mk_X] at hsum
  exact CharTwo.add_eq_zero.mp hsum

set_option maxRecDepth 4096 in
theorem ofBits_injective {a b : Nat → Bool} (h : ofBits x 128 a = ofBits x 128 b) {i : Nat}
    (hi : i < 128) : a i = b i := by
  have hmk : ∀ c : Nat → Bool, ofBits x 128 c =
      AdjoinRoot.mk modulus (ofBits (X : (ZMod 2)[X]) 128 c) := by
    intro c
    unfold ofBits
    rw [map_sum]
    apply Finset.sum_congr rfl
    intro j _
    split
    · rw [map_pow, AdjoinRoot.mk_X]
    · rw [map_zero]
  have hcoeff : ∀ (c : Nat → Bool) (j : Nat), (ofBits (X : (ZMod 2)[X]) 128 c).coeff j =
      if j < 128 then if c j then 1 else 0 else 0 := by
    intro c j
    unfold ofBits
    rw [finsetSum_coeff]
    have hterm : ∀ k, (if c k then (X : (ZMod 2)[X]) ^ k else 0).coeff j =
        if k = j then if c j then 1 else 0 else 0 := by
      intro k
      by_cases hk : k = j
      · subst hk
        by_cases hc : c k <;> simp [hc]
      · by_cases hc : c k <;> simp [hc, hk, coeff_X_pow, Ne.symm hk]
    simp only [hterm, Finset.sum_ite_eq', Finset.mem_range]
  have hdegree : ∀ c : Nat → Bool,
      (ofBits (X : (ZMod 2)[X]) 128 c).degree < ((128 : Nat) : WithBot Nat) := by
    intro c
    apply (degree_lt_iff_coeff_zero _ _).mpr
    intro j hj
    rw [hcoeff, if_neg (by simpa using hj)]
  rw [hmk, hmk, AdjoinRoot.mk_eq_mk] at h
  have hlt := lt_of_le_of_lt (degree_sub_le _ _) (max_lt (hdegree a) (hdegree b))
  have hzero := eq_zero_of_dvd_of_degree_lt h (lt_of_lt_of_eq hlt modulus_degree.symm)
  have hsame := congrArg (fun p : (ZMod 2)[X] => p.coeff i) (sub_eq_zero.mp hzero)
  simp only [hcoeff, if_pos hi] at hsame
  cases ha : a i <;> cases hb : b i <;> simp [ha, hb] at hsame ⊢

end

end BinaryField
