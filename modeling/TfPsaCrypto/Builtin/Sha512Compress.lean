import Mathlib.Algebra.Group.Fin.Basic
import Mathlib.Data.Fintype.Basic
import Mathlib.Tactic.FinCases
import Mathlib.Tactic.IntervalCases
import Mathlib.Tactic.NormNum.Prime
import TfPsaCrypto.Builtin.Sha512
import TfPsaCrypto.Library.Sha2

/-!
# The compression function of SHA-512

Both forms of `mbedtls_internal_sha512_process_c`. The unrolled form uses the registers rotated.
-/

namespace TfPsaCrypto.Sha512

open Bytes

/-! ## Constants -/

theorem prime_iff {p : Nat} (h : p < 410) :
    p.Prime ↔ 2 ≤ p ∧ ∀ q ∈ [2, 3, 5, 7, 11, 13, 17, 19], q ∣ p → p = q := by
  constructor
  · intro hp
    refine ⟨hp.two_le, fun q hq hdvd => ?_⟩
    have hall : ∀ q ∈ [2, 3, 5, 7, 11, 13, 17, 19], 2 ≤ q := by decide
    have htwo := hall q hq
    rcases (Nat.dvd_prime hp).mp hdvd with hone | heq
    · omega
    · exact heq.symm
  · rintro ⟨htwo, hsmall⟩
    by_contra hp
    have hfactor := Nat.minFac_prime (show p ≠ 1 by omega)
    have hdvd := Nat.minFac_dvd p
    have hsq := Nat.minFac_sq_le_self (by omega) hp
    generalize p.minFac = q at hfactor hdvd hsq
    have hq : q ≤ 20 := by
      by_contra hbig
      have hpow := Nat.pow_le_pow_left (show 21 ≤ q by omega) 2
      omega
    have hmem : q ∈ [2, 3, 5, 7, 11, 13, 17, 19] := by
      interval_cases q <;> first | decide | exact absurd hfactor (by norm_num)
    obtain rfl := hsmall q hmem hdvd
    have hself : p < p ^ 2 := by
      rw [sq]
      exact lt_mul_of_one_lt_left (by omega) (by omega)
    omega

theorem primes_eq : Sha2.primes =
    [2, 3, 5, 7, 11, 13, 17, 19, 23, 29, 31, 37, 41, 43, 47, 53, 59, 61, 67, 71, 73, 79, 83, 89,
      97, 101, 103, 107, 109, 113, 127, 131, 137, 139, 149, 151, 157, 163, 167, 173, 179, 181,
      191, 193, 197, 199, 211, 223, 227, 229, 233, 239, 241, 251, 257, 263, 269, 271, 277, 281,
      283, 293, 307, 311, 313, 317, 331, 337, 347, 349, 353, 359, 367, 373, 379, 383, 389, 397,
      401, 409] := by
  have hfilter : Sha2.primes = (List.range 410).filter fun p =>
      2 ≤ p ∧ ∀ q ∈ [2, 3, 5, 7, 11, 13, 17, 19], q ∣ p → p = q :=
    List.filter_congr fun p hp => decide_eq_decide.mpr (prime_iff (List.mem_range.mp hp))
  rw [hfilter]
  decide +kernel

def IsCubeRoot (p : Nat) (k : Uint64) : Prop :=
  ∃ a < 8, (a * 2 ^ 64 + k.toNat) ^ 3 ≤ p * 2 ^ 192 ∧ p * 2 ^ 192 < (a * 2 ^ 64 + k.toNat + 1) ^ 3

instance (p : Nat) (k : Uint64) : Decidable (IsCubeRoot p k) := by
  unfold IsCubeRoot
  infer_instance

def IsSquareRoot (p : Nat) (k : Uint64) : Prop :=
  ∃ a < 8, (a * 2 ^ 64 + k.toNat) * (a * 2 ^ 64 + k.toNat) ≤ p * 2 ^ 128 ∧
    p * 2 ^ 128 < (a * 2 ^ 64 + k.toNat + 1) * (a * 2 ^ 64 + k.toNat + 1)

instance (p : Nat) (k : Uint64) : Decidable (IsSquareRoot p k) := by
  unfold IsSquareRoot
  infer_instance

theorem ofNat_root (a : Nat) (k : Uint64) : BitVec.ofNat 64 (a * 2 ^ 64 + k.toNat) = k := by
  apply BitVec.eq_of_toNat_eq
  rw [BitVec.toNat_ofNat, Nat.mul_add_mod_self_right, Nat.mod_eq_of_lt k.isLt]

theorem roundConstant_eq {t : Nat} (h : t < 80) : Sha2.roundConstant t = K.getD t 0 := by
  have hall : ∀ t < 80, IsCubeRoot (Sha2.primes.getD t 0) (K.getD t 0) := by
    rw [primes_eq]
    decide +kernel
  obtain ⟨a, _, hle, hlt⟩ := hall t h
  unfold Sha2.roundConstant
  rw [Sha2.cubeRoot_eq hle hlt, ofNat_root]

theorem initialWord_eq {t : Nat} {k : Uint64} (h : IsSquareRoot (Sha2.primes.getD t 0) k) :
    Sha2.initialWord t = k := by
  obtain ⟨a, _, hle, hlt⟩ := h
  unfold Sha2.initialWord
  rw [← Nat.eq_sqrt.mpr ⟨hle, hlt⟩, ofNat_root]

/-! ## Functions -/

theorem rotr_eq {n : Nat} (h : n < 64) (x : Uint64) : rotr x n = x.rotateRight n := by
  unfold rotr shr BitVec.rotateRight BitVec.rotateRightAux
  rw [Nat.mod_eq_of_lt h]

theorem S0_eq (x : Uint64) : S0 x = Sha2.smallSigma0 x := by
  unfold S0 Sha2.smallSigma0
  rw [rotr_eq (by decide), rotr_eq (by decide)]
  rfl

theorem S1_eq (x : Uint64) : S1 x = Sha2.smallSigma1 x := by
  unfold S1 Sha2.smallSigma1
  rw [rotr_eq (by decide), rotr_eq (by decide)]
  rfl

theorem S2_eq (x : Uint64) : S2 x = Sha2.bigSigma0 x := by
  unfold S2 Sha2.bigSigma0
  rw [rotr_eq (by decide), rotr_eq (by decide), rotr_eq (by decide)]

theorem S3_eq (x : Uint64) : S3 x = Sha2.bigSigma1 x := by
  unfold S3 Sha2.bigSigma1
  rw [rotr_eq (by decide), rotr_eq (by decide), rotr_eq (by decide)]

theorem F0_eq (x y z : Uint64) : F0 x y z = Sha2.maj x y z := by
  unfold F0 Sha2.maj
  ext i hi
  simp only [BitVec.getElem_or, BitVec.getElem_and, BitVec.getElem_xor]
  cases x[i] <;> cases y[i] <;> cases z[i] <;> rfl

theorem F1_eq (x y z : Uint64) : F1 x y z = Sha2.ch x y z := by
  unfold F1 Sha2.ch
  ext i hi
  simp only [BitVec.getElem_and, BitVec.getElem_xor, BitVec.getElem_not]
  cases x[i] <;> cases y[i] <;> cases z[i] <;> rfl

/-! ## Rounds -/

theorem moveRegisters_eq (A : Registers) : moveRegisters A = fun i => A (i - 1) := by
  funext i
  fin_cases i <;> rfl

theorem round_eq (A : Registers) (x k : Uint64) :
    moveRegisters (P A 0 1 2 3 4 5 6 7 x k) = Sha2.round k x A := by
  unfold Sha2.round P moveRegisters
  simp only [S2_eq, S3_eq, F0_eq, F1_eq]
  funext i
  fin_cases i <;> rfl

theorem P_rotated (j : Fin 8) {a b c d e f g h : Fin 8}
    (hindex : ∀ i, ![a, b, c, d, e, f, g, h] i = i - j) (A : Registers) (x k : Uint64) :
    (fun i => P A a b c d e f g h x k (i - (j + 1))) = Sha2.round k x fun i => A (i - j) := by
  obtain rfl : a = 0 - j := hindex 0
  obtain rfl : b = 1 - j := hindex 1
  obtain rfl : c = 2 - j := hindex 2
  obtain rfl : d = 3 - j := hindex 3
  obtain rfl : e = 4 - j := hindex 4
  obtain rfl : f = 5 - j := hindex 5
  obtain rfl : g = 6 - j := hindex 6
  obtain rfl : h = 7 - j := hindex 7
  rw [← round_eq, moveRegisters_eq]
  funext i
  have hsplit : i - (j + 1) = i - 1 - j := by rw [add_comm j 1, sub_sub]
  unfold P
  simp only [hsplit, Function.update_apply, sub_left_inj]

/-! ## The smaller form -/

section Loops

variable {data : ByteString} {W : Nat → Uint64}

theorem getUint64BE_eq (data : ByteString) (t : Nat) :
    getUint64BE data (8 * t) = Sha2.blockWord data t := rfl

/-- The entries before `n` are those of the message schedule. -/
def Filled (data : ByteString) (W : Nat → Uint64) (n : Nat) : Prop :=
  ∀ t < n, W t = Sha2.schedule (Sha2.blockWord data) t

theorem Filled.extend {i : Nat} (h : Filled data W i) (hi : ¬ i < 16) :
    extend W i = Sha2.schedule (Sha2.blockWord data) i := by
  unfold Sha512.extend
  rw [h (i - 2) (by omega), h (i - 7) (by omega), h (i - 15) (by omega), h (i - 16) (by omega),
    S0_eq, S1_eq, Sha2.schedule_of_ge hi]

theorem Filled.update {n : Nat} {w : Uint64} (h : Filled data W n)
    (hw : w = Sha2.schedule (Sha2.blockWord data) n) :
    Filled data (Function.update W n w) (n + 1) := by
  intro t ht
  rcases Nat.lt_succ_iff_lt_or_eq.mp ht with hlt | rfl
  · rw [Function.update_of_ne (by omega)]
    exact h t hlt
  · rw [Function.update_self]
    exact hw

theorem smallerRounds_eq (state : Registers) {n : Nat} (hn : n ≤ 80) :
    Filled data ((List.range n).foldl (smallerIteration data) (fun _ => 0, state)).1 n ∧
      ((List.range n).foldl (smallerIteration data) (fun _ => 0, state)).2 =
        Sha2.rounds (Sha2.blockWord data) state n := by
  induction n with
  | zero => exact ⟨fun t ht => absurd ht (Nat.not_lt_zero t), rfl⟩
  | succ n ih =>
    obtain ⟨hfilled, hrounds⟩ := ih (by omega)
    rw [List.range_succ, List.foldl_append, List.foldl_cons, List.foldl_nil]
    generalize (List.range n).foldl (smallerIteration data) (fun _ => 0, state) = s
      at hfilled hrounds
    have hword : (if n < 16 then getUint64BE data (8 * n) else extend s.1 n) =
        Sha2.schedule (Sha2.blockWord data) n := by
      split
      · next h => rw [Sha2.schedule_of_lt h, getUint64BE_eq]
      · next h => exact hfilled.extend h
    unfold smallerIteration
    simp only
    refine ⟨hfilled.update hword, ?_⟩
    rw [Function.update_self, round_eq, hword, hrounds, Sha2.rounds_succ,
      roundConstant_eq (by omega)]

/-! ## The unrolled form -/

theorem fillW_filled (data : ByteString) : Filled data (fillW data) 80 := by
  have hwords : ∀ n ≤ 16, Filled data ((List.range n).foldl
      (fun W i => Function.update W i (getUint64BE data (8 * i))) fun _ => 0) n := by
    intro n hn
    induction n with
    | zero => exact fun t ht => absurd ht (Nat.not_lt_zero t)
    | succ n ih =>
      rw [List.range_succ, List.foldl_append, List.foldl_cons, List.foldl_nil]
      apply (ih (by omega)).update
      rw [Sha2.schedule_of_lt (by omega), getUint64BE_eq]
  have hextended : ∀ W, Filled data W 16 → ∀ n, Filled data ((List.range' 16 n).foldl
      (fun W i => Function.update W i (extend W i)) W) (16 + n) := by
    intro W hW n
    induction n with
    | zero => exact hW
    | succ n ih =>
      rw [List.range'_concat, Nat.one_mul, List.foldl_append, List.foldl_cons, List.foldl_nil]
      exact ih.update (ih.extend (by omega))
  exact hextended _ (hwords 16 (Nat.le_refl 16)) 64

theorem unrolledIteration_eq {A : Registers} {H : Registers} {n : Nat} (hW : Filled data W 80)
    (hA : A = Sha2.rounds (Sha2.blockWord data) H n) (hn : n + 8 ≤ 80) :
    unrolledIteration W A n = Sha2.rounds (Sha2.blockWord data) H (n + 8) := by
  have hstart : (fun i => A (i - 0)) = Sha2.rounds (Sha2.blockWord data) H n := by
    rw [← hA]
    funext i
    rw [sub_zero]
  -- the registers before round `j` of the eight are those of the standard, rotated by `j`
  have hround : ∀ (j : Fin 8) {a b c d e f g h : Fin 8},
      (∀ i, ![a, b, c, d, e, f, g, h] i = i - j) → ∀ (A' : Registers) (m : Nat), m < 80 →
      (fun i => A' (i - j)) = Sha2.rounds (Sha2.blockWord data) H m →
      (fun i => P A' a b c d e f g h (W m) (K.getD m 0) (i - (j + 1))) =
        Sha2.rounds (Sha2.blockWord data) H (m + 1) := by
    intro j a b c d e f g h hindex A' m hm hA'
    rw [P_rotated j hindex, hA', hW m hm, Sha2.rounds_succ, roundConstant_eq hm]
  have h₁ := @hround 0 0 1 2 3 4 5 6 7 (by decide) _ n (by omega) hstart
  have h₂ := @hround 1 7 0 1 2 3 4 5 6 (by decide) _ (n + 1) (by omega) h₁
  have h₃ := @hround 2 6 7 0 1 2 3 4 5 (by decide) _ (n + 2) (by omega) h₂
  have h₄ := @hround 3 5 6 7 0 1 2 3 4 (by decide) _ (n + 3) (by omega) h₃
  have h₅ := @hround 4 4 5 6 7 0 1 2 3 (by decide) _ (n + 4) (by omega) h₄
  have h₆ := @hround 5 3 4 5 6 7 0 1 2 (by decide) _ (n + 5) (by omega) h₅
  have h₇ := @hround 6 2 3 4 5 6 7 0 1 (by decide) _ (n + 6) (by omega) h₆
  have h₈ := @hround 7 1 2 3 4 5 6 7 0 (by decide) _ (n + 7) (by omega) h₇
  rw [← h₈]
  funext i
  have hzero : i - (7 + 1) = i := by
    rw [show (7 : Fin 8) + 1 = 0 by decide, sub_zero]
  rw [hzero]
  rfl

theorem unrolledRounds_eq (state : Registers) {n : Nat} (hn : n ≤ 10) :
    (List.range n).foldl (fun A n => unrolledIteration (fillW data) A (8 * n)) state =
      Sha2.rounds (Sha2.blockWord data) state (8 * n) := by
  induction n with
  | zero => rfl
  | succ n ih =>
    rw [List.range_succ, List.foldl_append, List.foldl_cons, List.foldl_nil]
    exact unrolledIteration_eq (fillW_filled data) (ih (by omega)) (by omega)

/-! ## Blocks -/

theorem mbedtlsInternalSha512ProcessC_eq (smaller : Bool) (state : Registers)
    (data : ByteString) :
    mbedtlsInternalSha512ProcessC smaller state data = Sha2.compress state data := by
  have hrounds : processRounds smaller state data =
      Sha2.rounds (Sha2.blockWord data) state 80 := by
    cases smaller with
    | true => exact (smallerRounds_eq state (Nat.le_refl 80)).2
    | false => exact unrolledRounds_eq state (Nat.le_refl 10)
  unfold mbedtlsInternalSha512ProcessC Sha2.compress
  rw [hrounds]
  funext i
  exact BitVec.add_comm _ _

theorem mbedtlsInternalSha512ProcessManyC_eq (smaller : Bool) (state : Registers)
    (data : ByteString) :
    mbedtlsInternalSha512ProcessManyC smaller state data =
      (BlockHash.hash 128 Sha2.compress state data, 128 * (data.length / 128)) := by
  induction hn : data.length / 128 generalizing state data with
  | zero =>
    have hlt : data.length < 128 := by omega
    rw [mbedtlsInternalSha512ProcessManyC, if_neg (by omega), BlockHash.hash_of_lt hlt]
  | succ n ih =>
    have hle : 128 ≤ data.length := by omega
    have hblock : (data.take 128).length = 128 := by rw [List.length_take]; omega
    have hrest : (data.drop 128).length / 128 = n := by rw [List.length_drop]; omega
    have hsplit := BlockHash.hash_append (f := Sha2.compress) (m := 1) (show 0 < 128 by decide)
      hblock state (data.drop 128)
    rw [List.take_append_drop, BlockHash.hash_block (by decide) hblock] at hsplit
    rw [mbedtlsInternalSha512ProcessManyC, if_pos hle, hsplit,
      mbedtlsInternalSha512ProcessC_eq, ih _ _ hrest]
    simp only [Prod.mk.injEq, true_and]
    omega

end Loops

end TfPsaCrypto.Sha512
