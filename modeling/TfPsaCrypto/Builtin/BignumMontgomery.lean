import Mathlib.Data.BitVec
import Mathlib.Data.Nat.Prime.Basic
import Mathlib.Tactic.Positivity
import TfPsaCrypto.Library.Montgomery

/-!
# Montgomery multiplication of bignums

`mbedtls_mpi_core_montmul_init` on limbs of `w` bits, and `mbedtls_mpi_core_montmul` on the numbers
that its limb arrays denote.
-/

namespace TfPsaCrypto

variable {w : Nat}

/-- The loop of `mbedtls_mpi_core_montmul_init`, for `i` from `biL` down to 8. -/
def montmulInitLoop (n₀ : BitVec w) : Nat → Nat → BitVec w → BitVec w
  | 0, _, x => x
  | fuel + 1, i, x => if i ≥ 8 then montmulInitLoop n₀ fuel (i / 2) (x * (2 - n₀ * x)) else x

def mbedtlsMpiCoreMontmulInit (n₀ : BitVec w) : BitVec w :=
  let x := n₀ + (((n₀ + 2) &&& 4) <<< 1)
  ~~~(montmulInitLoop n₀ w w x) + 1

def mbedtlsMpiCoreMontmul (w n A B N : Nat) (mm : BitVec w) : Nat :=
  Montgomery.mul (2 ^ w) N mm.toNat n A B

def mbedtlsMpiCoreGetMontR2Unsafe (w n N : Nat) : Nat := 1 <<< (n * 2 * w) % N

def mbedtlsMpiCoreToMontRep (w n A N : Nat) (mm : BitVec w) (RR : Nat) : Nat :=
  mbedtlsMpiCoreMontmul w n A RR N mm

/-! ## The inverse of the low limb -/

theorem modEq_of_bitVec {x : BitVec w} {v : Int} {k : Nat} (hk : k ≤ w)
    (h : x = BitVec.ofInt w v) : (x.toNat : Int) ≡ v [ZMOD 2 ^ k] := by
  have hdvd : (2 : Int) ^ k ∣ 2 ^ w := pow_dvd_pow 2 hk
  rw [h, BitVec.toNat_ofInt]
  have hnonneg : 0 ≤ v % ((2 ^ w : Nat) : Int) := Int.emod_nonneg _ (by positivity)
  rw [Int.toNat_of_nonneg hnonneg]
  exact (Int.mod_modEq v (2 ^ w)).of_dvd hdvd

theorem montmulInit_round {n₀ x : BitVec w} {k : Nat} (hk : 2 * k ≤ w)
    (h : (n₀.toNat * x.toNat : Int) ≡ 1 [ZMOD 2 ^ k]) :
    (n₀.toNat * (x * (2 - n₀ * x)).toNat : Int) ≡ 1 [ZMOD 2 ^ (2 * k)] := by
  have hx : x * (2 - n₀ * x) =
      BitVec.ofInt w (x.toNat * (2 - n₀.toNat * x.toNat) : Int) := by
    rw [BitVec.ofInt_mul, sub_eq_add_neg (2 : Int), BitVec.ofInt_add, BitVec.ofInt_neg,
      BitVec.ofInt_mul, BitVec.ofInt_natCast, BitVec.ofInt_natCast, BitVec.ofNat_toNat,
      BitVec.ofNat_toNat, BitVec.setWidth_eq, BitVec.setWidth_eq, BitVec.sub_eq_add_neg]
    rfl
  have hword := (modEq_of_bitVec hk hx).mul_left (n₀.toNat : Int)
  have hpow : (2 : Int) ^ (2 * k) = 2 ^ k * 2 ^ k := by rw [two_mul, pow_add]
  refine hword.trans ?_
  rw [hpow]
  exact Montgomery.newton h

theorem montmulInit_start {n₀ : BitVec w} (hw : 4 ≤ w) (hodd : n₀.toNat % 2 = 1) :
    (n₀.toNat * (n₀ + (((n₀ + 2) &&& 4) <<< 1)).toNat : Int) ≡ 1 [ZMOD 2 ^ 4] := by
  have hlow : ∀ m : BitVec 4, m.toNat % 2 = 1 → m * (m + (((m + 2) &&& 4) <<< 1)) = 1 := by
    decide
  have htwo : (2 : BitVec w).setWidth 4 = 2 := BitVec.setWidth_ofNat_of_le hw 2
  have hfour : (4 : BitVec w).setWidth 4 = 4 := BitVec.setWidth_ofNat_of_le hw 4
  have hset : (n₀ * (n₀ + (((n₀ + 2) &&& 4) <<< 1))).setWidth 4 = 1 := by
    rw [BitVec.setWidth_mul _ _ hw, BitVec.setWidth_add _ _ hw, BitVec.setWidth_shiftLeft_of_le hw,
      BitVec.setWidth_and, BitVec.setWidth_add _ _ hw, htwo, hfour]
    apply hlow
    rw [BitVec.toNat_setWidth]
    omega
  have hnat := congrArg BitVec.toNat hset
  rw [BitVec.toNat_setWidth, BitVec.toNat_mul, Nat.mod_mod_of_dvd _ (Nat.pow_dvd_pow 2 hw)] at hnat
  have hmod : n₀.toNat * (n₀ + (((n₀ + 2) &&& 4) <<< 1)).toNat ≡ 1 [MOD 2 ^ 4] := hnat
  exact_mod_cast (Int.natCast_modEq_iff.mpr hmod)

theorem mbedtlsMpiCoreMontmulInit_eq {n₀ : BitVec w} (hw : w = 32 ∨ w = 64)
    (hodd : n₀.toNat % 2 = 1) :
    ((mbedtlsMpiCoreMontmulInit n₀).toNat * n₀.toNat + 1) % 2 ^ w = 0 := by
  have hinverse : (n₀.toNat * (montmulInitLoop n₀ w w
      (n₀ + (((n₀ + 2) &&& 4) <<< 1))).toNat : Int) ≡ 1 [ZMOD 2 ^ w] := by
    have hstart := montmulInit_start (w := w) (by omega) hodd
    generalize n₀ + (((n₀ + 2) &&& 4) <<< 1) = x at hstart ⊢
    rcases hw with rfl | rfl
    · exact montmulInit_round (k := 16) (by omega)
        (montmulInit_round (k := 8) (by omega) (montmulInit_round (k := 4) (by omega) hstart))
    · exact montmulInit_round (k := 32) (by omega) (montmulInit_round (k := 16) (by omega)
        (montmulInit_round (k := 8) (by omega) (montmulInit_round (k := 4) (by omega) hstart)))
  unfold mbedtlsMpiCoreMontmulInit
  simp only
  generalize montmulInitLoop n₀ w w (n₀ + (((n₀ + 2) &&& 4) <<< 1)) = x at hinverse ⊢
  have hneg : ~~~x + 1 = BitVec.ofInt w (-(x.toNat : Int)) := by
    have hnot : ~~~x + 1 = -x := (BitVec.neg_eq_not_add x).symm
    rw [hnot, BitVec.ofInt_neg, BitVec.ofInt_natCast, BitVec.ofNat_toNat, BitVec.setWidth_eq]
  have hmod := (modEq_of_bitVec le_rfl hneg).mul_right (n₀.toNat : Int)
  have hsum : ((~~~x + 1).toNat * n₀.toNat + 1 : Int) ≡ 0 [ZMOD 2 ^ w] := by
    calc ((~~~x + 1).toNat * n₀.toNat + 1 : Int)
        ≡ -(x.toNat : Int) * n₀.toNat + 1 [ZMOD 2 ^ w] := hmod.add_right 1
      _ = 1 - n₀.toNat * x.toNat := by ring
      _ ≡ 1 - 1 [ZMOD 2 ^ w] := hinverse.sub_left 1
      _ = 0 := sub_self 1
  have hnat : ((((~~~x + 1).toNat * n₀.toNat + 1 : Nat) : Int)) ≡ ((0 : Nat) : Int)
      [ZMOD ((2 ^ w : Nat) : Int)] := by
    exact hsum
  exact Int.natCast_modEq_iff.mp hnat

/-! ## The product -/

theorem mbedtlsMpiCoreGetMontR2Unsafe_eq {n N : Nat} (hN : 0 < N) :
    mbedtlsMpiCoreGetMontR2Unsafe w n N < N ∧
      mbedtlsMpiCoreGetMontR2Unsafe w n N ≡ (2 ^ w) ^ n * (2 ^ w) ^ n [MOD N] := by
  unfold mbedtlsMpiCoreGetMontR2Unsafe
  have hpow : 1 <<< (n * 2 * w) = (2 ^ w) ^ n * (2 ^ w) ^ n := by
    rw [Nat.shiftLeft_eq, Nat.one_mul, ← Nat.pow_mul, ← Nat.pow_add]
    congr 1
    ring
  rw [hpow]
  exact ⟨Nat.mod_lt _ hN, Nat.mod_modEq _ _⟩

theorem mbedtlsMpiCoreMontmul_toMontRep (hw : w = 32 ∨ w = 64) {n A B N : Nat} {n₀ : BitVec w}
    (hodd : N % 2 = 1) (hn₀ : n₀.toNat = N % 2 ^ w) (hN : N < (2 ^ w) ^ n) (hA : A < N)
    (hB : B < N) :
    mbedtlsMpiCoreMontmul w n
        (mbedtlsMpiCoreToMontRep w n A N (mbedtlsMpiCoreMontmulInit n₀)
          (mbedtlsMpiCoreGetMontR2Unsafe w n N))
        B N (mbedtlsMpiCoreMontmulInit n₀) = A * B % N := by
  obtain ⟨hlt, hsquare⟩ := mbedtlsMpiCoreGetMontR2Unsafe_eq (w := w) (n := n) (N := N) (by omega)
  have hdvd : 2 ∣ 2 ^ w := dvd_pow_self 2 (by omega)
  have hlow : n₀.toNat % 2 = 1 := by rw [hn₀, Nat.mod_mod_of_dvd _ hdvd, hodd]
  have hinit := mbedtlsMpiCoreMontmulInit_eq hw hlow
  have hmm : ((mbedtlsMpiCoreMontmulInit n₀).toNat * N + 1) % 2 ^ w = 0 := by
    have hword : N ≡ n₀.toNat [MOD 2 ^ w] := by
      rw [hn₀]
      exact (Nat.mod_modEq _ _).symm
    have hinit' : (mbedtlsMpiCoreMontmulInit n₀).toNat * n₀.toNat + 1 ≡ 0 [MOD 2 ^ w] := hinit
    exact ((hword.mul_left _).add_right 1).trans hinit'
  have hcoprime : N.Coprime ((2 ^ w) ^ n) := by
    rw [← Nat.pow_mul]
    exact Nat.Coprime.pow_right _ (Nat.coprime_two_right.mpr (Nat.odd_iff.mpr hodd))
  exact Montgomery.mul_mul_square (Nat.two_pow_pos w) hmm hcoprime hN.le hA hB hlt hsquare

end TfPsaCrypto
