import TfPsaCrypto.Builtin.BignumArithmetic

/-!
# Constant-time comparison of bignums

`mbedtls_mpi_core_lt_ct` and `mbedtls_mpi_lt_mpi_ct`. A condition is a `Bool`.
-/

namespace TfPsaCrypto

open Limbs

variable {w : Nat}

/-- The loop of `mbedtls_mpi_core_lt_ct`, with `i` limbs to go. -/
def coreLtCtLoop (A B : List (BitVec w)) : Nat → Bool → Bool → Bool
  | 0, ret, _ => ret
  | i + 1, ret, done =>
    let done := done || decide (B.getD i 0 < A.getD i 0)
    let cond := decide (A.getD i 0 < B.getD i 0)
    coreLtCtLoop A B i (ret || (cond && !done)) (done || cond)

def mbedtlsMpiCoreLtCt (A B : List (BitVec w)) (limbs : Nat) : Bool :=
  coreLtCtLoop A B limbs false false

def MbedtlsMpi.isNegative (X : MbedtlsMpi w) : Bool := (BitVec.ofInt 16 X.s).getLsbD 1

def mbedtlsMpiLtMpiCt (X Y : MbedtlsMpi w) : Except MpiError Bool :=
  if X.n ≠ Y.n then .error .badInputData
  else
    let differentSign := X.isNegative != Y.isNegative
    -- negative numbers are compared the other way round
    let lt := if X.isNegative then mbedtlsMpiCoreLtCt Y.p X.p X.n
      else mbedtlsMpiCoreLtCt X.p Y.p X.n
    .ok ((differentSign && X.isNegative) || (!differentSign && lt))

/-! ## Magnitudes -/

theorem value_take_succ {X : List (BitVec w)} {i : Nat} (hi : i < X.length) :
    value (X.take (i + 1)) = value (X.take i) + 2 ^ (w * i) * (X.getD i 0).toNat := by
  rw [List.take_succ_eq_append_getElem hi, value_append, List.length_take,
    Nat.min_eq_left (Nat.le_of_lt hi)]
  simp [List.getD_eq_getElem?_getD, List.getElem?_eq_getElem hi]

theorem value_take_lt (X : List (BitVec w)) (i : Nat) : value (X.take i) < 2 ^ (w * i) := by
  have hlen : (X.take i).length ≤ i := List.length_take_le i X
  exact Nat.lt_of_lt_of_le (value_lt _)
    (Nat.pow_le_pow_right (by decide) (Nat.mul_le_mul_left w hlen))

theorem coreLtCtLoop_done (A B : List (BitVec w)) (i : Nat) (ret : Bool) :
    coreLtCtLoop A B i ret true = ret := by
  induction i with
  | zero => rfl
  | succ i ih =>
    unfold coreLtCtLoop
    simpa using ih

theorem coreLtCtLoop_eq {A B : List (BitVec w)} {i : Nat} (hA : i ≤ A.length)
    (hB : i ≤ B.length) :
    coreLtCtLoop A B i false false = decide (value (A.take i) < value (B.take i)) := by
  induction i with
  | zero => simp [coreLtCtLoop]
  | succ i ih =>
    have hAlt := value_take_lt A i
    have hBlt := value_take_lt B i
    unfold coreLtCtLoop
    rw [value_take_succ hA, value_take_succ hB]
    generalize ha : A.getD i 0 = a
    generalize hb : B.getD i 0 = b
    rcases Nat.lt_trichotomy a.toNat b.toNat with hlt | heq | hgt
    · have hnot : ¬ b.toNat < a.toNat := Nat.not_lt_of_gt hlt
      have hmul : 2 ^ (w * i) * (a.toNat + 1) ≤ 2 ^ (w * i) * b.toNat := Nat.mul_le_mul_left _ hlt
      rw [Nat.mul_succ] at hmul
      simp only [BitVec.lt_def, hlt, hnot, decide_true, decide_false, Bool.false_or,
        Bool.not_false, Bool.and_self, coreLtCtLoop_done]
      exact (decide_eq_true (by omega)).symm
    · simp only [BitVec.lt_def, heq, Nat.lt_irrefl, decide_false, Bool.or_false,
        Bool.false_and, Nat.add_lt_add_iff_right]
      exact ih (Nat.le_of_succ_le hA) (Nat.le_of_succ_le hB)
    · have hnot : ¬ a.toNat < b.toNat := Nat.not_lt_of_gt hgt
      have hmul : 2 ^ (w * i) * (b.toNat + 1) ≤ 2 ^ (w * i) * a.toNat := Nat.mul_le_mul_left _ hgt
      rw [Nat.mul_succ] at hmul
      simp only [BitVec.lt_def, hgt, hnot, decide_true, decide_false, Bool.false_or,
        Bool.false_and, Bool.or_false, coreLtCtLoop_done]
      exact (decide_eq_false (by omega)).symm

theorem mbedtlsMpiCoreLtCt_eq {A B : List (BitVec w)} (h : A.length = B.length) :
    mbedtlsMpiCoreLtCt A B A.length = decide (value A < value B) := by
  have hloop := coreLtCtLoop_eq (Nat.le_refl A.length) (Nat.le_of_eq h)
  rw [List.take_length, h, List.take_length, ← h] at hloop
  exact hloop

/-! ## Signed numbers -/

def MbedtlsMpi.Signed (X : MbedtlsMpi w) : Prop := X.s = if X.toInt < 0 then -1 else 1

theorem MbedtlsMpi.Signed.isNegative {X : MbedtlsMpi w} (h : X.Signed) :
    X.isNegative = decide (X.toInt < 0) := by
  unfold MbedtlsMpi.isNegative
  rw [h]
  by_cases hneg : X.toInt < 0
  · rw [if_pos hneg, decide_eq_true hneg]
    rfl
  · rw [if_neg hneg, decide_eq_false hneg]
    rfl

theorem MbedtlsMpi.Signed.toInt_eq {X : MbedtlsMpi w} (h : X.Signed) :
    X.toInt = if X.toInt < 0 then -(value X.p : Int) else value X.p := by
  conv_lhs => unfold MbedtlsMpi.toInt MbedtlsMpi.abs
  rw [h]
  split <;> simp

theorem mbedtlsMpiLtMpiCt_eq {X Y : MbedtlsMpi w} (hX : X.Signed) (hY : Y.Signed)
    (hn : X.n = Y.n) : mbedtlsMpiLtMpiCt X Y = .ok (decide (X.toInt < Y.toInt)) := by
  have hlen : X.p.length = Y.p.length := hn
  have hXY := mbedtlsMpiCoreLtCt_eq hlen
  have hYX := mbedtlsMpiCoreLtCt_eq hlen.symm
  have hXval := hX.toInt_eq
  have hYval := hY.toInt_eq
  unfold mbedtlsMpiLtMpiCt
  rw [if_neg (not_not.mpr hn), hX.isNegative, hY.isNegative]
  simp only [MbedtlsMpi.n]
  rw [hXY, hlen, hYX]
  by_cases hx : X.toInt < 0 <;> by_cases hy : Y.toInt < 0
  · rw [if_pos hx] at hXval
    simp [hx, hy]
    omega
  · simp [hx, hy]
    omega
  · simp [hx, hy]
    omega
  · rw [if_neg hx] at hXval
    simp [hx, hy]
    omega

theorem MpiNum.mpi_toInt {X : MpiNum} (h : X.val.natAbs < 2 ^ (w * X.n)) :
    (X.mpi w).toInt = X.val := by
  unfold MpiNum.mpi MbedtlsMpi.toInt MbedtlsMpi.abs
  simp only [value_ofNat_of_lt h]
  split <;> omega

theorem MpiNum.mpi_signed {X : MpiNum} (h : X.val.natAbs < 2 ^ (w * X.n)) :
    (X.mpi w).Signed := by
  unfold MbedtlsMpi.Signed
  rw [MpiNum.mpi_toInt h]
  rfl

theorem MpiNum.mpi_n (X : MpiNum) : (X.mpi w).n = X.n := length_ofNat _ _

end TfPsaCrypto
