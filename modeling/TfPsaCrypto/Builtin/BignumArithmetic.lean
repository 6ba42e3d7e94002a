import TfPsaCrypto.Builtin.Bignum

/-!
# Bignum arithmetic

The functions of `bignum.c` that compute with the numbers of an RSA key, on the value of a number
and the number of its limbs.
-/

namespace TfPsaCrypto

open Limbs

structure MpiNum where
  val : Int
  n : Nat
  deriving DecidableEq, Repr

def limbCount (w : Nat) (v : Int) : Nat := (v.natAbs.size + (w - 1)) / w

def MbedtlsMpi.num {w : Nat} (X : MbedtlsMpi w) : MpiNum := ⟨X.toInt, X.n⟩

/-! ## Functions -/

namespace MpiNum

def init : MpiNum := ⟨0, 0⟩

/-- `mbedtls_mpi_grow`, and the value that is then written. -/
def grow (X : MpiNum) (nblimbs : Nat) (val : Int) : Except MpiError MpiNum :=
  if nblimbs > mbedtlsMpiMaxLimbs then .error .allocFailed
  else .ok { val := val, n := max X.n nblimbs }

def mpi (w : Nat) (X : MpiNum) : MbedtlsMpi w :=
  { s := if X.val < 0 then -1 else 1, p := ofNat w X.n X.val.natAbs }

end MpiNum

def mbedtlsMpiCopy (w : Nat) (X Y : MpiNum) : Except MpiError MpiNum :=
  X.grow (if Y.n = 0 then 0 else max 1 (limbCount w Y.val)) Y.val

def mbedtlsMpiAddAbs (w : Nat) (X A B : MpiNum) : Except MpiError MpiNum :=
  match mbedtlsMpiCopy w X A with
  | .error e => .error e
  | .ok X =>
    let sum : Int := A.val.natAbs + B.val.natAbs
    X.grow (if B.val = 0 then 0 else max (limbCount w B.val) (limbCount w sum)) sum

/-- Numbers of the same sign are subtracted, others added. -/
def mbedtlsMpiSubMpi (w : Nat) (X A B : MpiNum) : Except MpiError MpiNum :=
  if A.val < 0 ↔ B.val < 0 then
    X.grow (if B.val.natAbs ≤ A.val.natAbs then A.n else B.n) (A.val - B.val)
  else
    (mbedtlsMpiAddAbs w X A B).map fun X => { X with val := A.val - B.val }

def mbedtlsMpiSubInt (w : Nat) (X A : MpiNum) : Except MpiError MpiNum :=
  mbedtlsMpiSubMpi w X A ⟨1, 1⟩

def mbedtlsMpiMulMpi (w : Nat) (X A B : MpiNum) : Except MpiError MpiNum :=
  X.grow (limbCount w A.val + limbCount w B.val) (A.val * B.val)

/-- The division needs two limbs more than `A` has unless `A` is the remainder, and `B` is added to
a negative remainder. -/
def mbedtlsMpiModMpi (w : Nat) (R A B : MpiNum) : Except MpiError MpiNum :=
  if B.val < 0 then .error .negativeValue
  else if B.val = 0 then .error .divisionByZero
  else if B.val.natAbs ≤ A.val.natAbs ∧ A.n + 2 > mbedtlsMpiMaxLimbs then .error .allocFailed
  else
    let rem := A.val.tmod B.val
    R.grow (max (if A.n = 0 then 0 else max 1 (limbCount w rem)) (if rem < 0 then B.n else 0))
      (A.val % B.val)

def mbedtlsMpiInvModOdd (w : Nat) (X A N : MpiNum) : Except MpiError MpiNum :=
  match mbedtlsMpiModMpi w .init A N with
  | .error e => .error e
  | .ok T =>
    if N.val % 2 ≠ 1 ∨ N.val = 1 then .error .badInputData
    else if N.n > mbedtlsMpiMaxLimbs then .error .allocFailed
    else if Int.gcd T.val N.val ≠ 1 then .error .notAcceptable
    else mbedtlsMpiCopy w X ⟨Int.gcdA T.val N.val % N.val, max T.n N.n⟩

/-! ## Limbs of a value -/

section Limbs

variable {w : Nat}

theorem limbCount_le (hw : 0 < w) {v : Int} {k : Nat} :
    limbCount w v ≤ k ↔ v.natAbs < 2 ^ (w * k) := by
  have hsize : v.natAbs.size + (w - 1) < (k + 1) * w ↔ v.natAbs.size ≤ w * k := by
    rw [Nat.succ_mul, Nat.mul_comm]
    omega
  unfold limbCount
  rw [← Nat.size_le, ← hsize, ← Nat.div_lt_iff_lt_mul hw, Nat.lt_succ_iff]

theorem limbCount_mono (hw : 0 < w) {u v : Int} (h : u.natAbs ≤ v.natAbs) :
    limbCount w u ≤ limbCount w v := by
  rw [limbCount_le hw]
  exact Nat.lt_of_le_of_lt h ((limbCount_le hw).mp (Nat.le_refl _))

theorem limbCount_mul (hw : 0 < w) (u v : Int) :
    limbCount w (u * v) ≤ limbCount w u + limbCount w v := by
  have hu := (limbCount_le hw).mp (Nat.le_refl (limbCount w u))
  have hv := (limbCount_le hw).mp (Nat.le_refl (limbCount w v))
  rw [limbCount_le hw, Int.natAbs_mul, Nat.mul_add, Nat.pow_add]
  exact Nat.mul_lt_mul'' hu hv

theorem MbedtlsMpi.limbCount_le (hw : 0 < w) {X : MbedtlsMpi w} (hs : X.s = 1) :
    limbCount w X.toInt ≤ X.n := by
  rw [TfPsaCrypto.limbCount_le hw, toInt, hs, Int.one_mul, Int.natAbs_natCast]
  exact value_lt X.p

end Limbs

/-! ## Results within the limit -/

def mpiDivLimbs : Nat := mbedtlsMpiMaxLimbs - 2

structure MpiNum.Small (w : Nat) (X : MpiNum) : Prop where
  n_le : X.n ≤ mpiDivLimbs
  val_le : limbCount w X.val ≤ mpiDivLimbs

section Small

variable {w : Nat} {X A B Z : MpiNum}

theorem MpiNum.grow_of_le {nblimbs : Nat} {val : Int} (h : nblimbs ≤ mpiDivLimbs)
    (hX : X.n ≤ mpiDivLimbs) (hval : limbCount w val ≤ mpiDivLimbs) :
    ∃ Z, X.grow nblimbs val = .ok Z ∧ Z.val = val ∧ Z.Small w := by
  have hmax : mpiDivLimbs ≤ mbedtlsMpiMaxLimbs := Nat.sub_le _ _
  refine ⟨{ val := val, n := max X.n nblimbs }, ?_, rfl, Nat.max_le.mpr ⟨hX, h⟩, hval⟩
  unfold grow
  rw [if_neg (by omega)]

theorem MpiNum.of_grow {nblimbs : Nat} {val : Int} (h : X.grow nblimbs val = .ok Z) :
    Z.val = val ∧ X.n ≤ Z.n ∧ nblimbs ≤ Z.n ∧ nblimbs ≤ mbedtlsMpiMaxLimbs := by
  unfold grow at h
  split at h
  · exact absurd h (by simp)
  · next hle =>
    rw [Except.ok.injEq] at h
    subst h
    exact ⟨rfl, Nat.le_max_left _ _, Nat.le_max_right _ _, Nat.not_lt.mp hle⟩

theorem mbedtlsMpiMulMpi_of_le (hw : 0 < w)
    (h : limbCount w A.val + limbCount w B.val ≤ mpiDivLimbs) (hX : X.n ≤ mpiDivLimbs) :
    ∃ Z, mbedtlsMpiMulMpi w X A B = .ok Z ∧ Z.val = A.val * B.val ∧ Z.Small w :=
  MpiNum.grow_of_le h hX (Nat.le_trans (limbCount_mul hw _ _) h)

theorem mbedtlsMpiSubMpi_of_small (hw : 0 < w) (hA : A.Small w) (hB : B.Small w)
    (hX : X.n ≤ mpiDivLimbs) (hposA : 0 ≤ A.val) (hposB : 0 ≤ B.val) :
    ∃ Z, mbedtlsMpiSubMpi w X A B = .ok Z ∧ Z.val = A.val - B.val ∧ Z.Small w := by
  have hval : limbCount w (A.val - B.val) ≤ mpiDivLimbs := by
    rcases Int.le_total A.val B.val with hle | hle
    · exact Nat.le_trans (limbCount_mono hw (by omega)) hB.val_le
    · exact Nat.le_trans (limbCount_mono hw (by omega)) hA.val_le
  unfold mbedtlsMpiSubMpi
  rw [if_pos (by omega)]
  apply MpiNum.grow_of_le _ hX hval
  split
  · exact hA.n_le
  · exact hB.n_le

theorem mbedtlsMpiSubInt_of_small (hw : 0 < w) (hA : A.Small w) (hX : X.n ≤ mpiDivLimbs)
    (hposA : 0 ≤ A.val) :
    ∃ Z, mbedtlsMpiSubInt w X A = .ok Z ∧ Z.val = A.val - 1 ∧ Z.Small w := by
  have hone : MpiNum.Small w ⟨1, 1⟩ := by
    refine ⟨by decide, Nat.le_trans ((limbCount_le hw).mpr ?_) (show 1 ≤ mpiDivLimbs by decide)⟩
    rw [Nat.mul_one]
    exact Nat.one_lt_two_pow (by omega)
  exact mbedtlsMpiSubMpi_of_small hw hA hone hX hposA (by decide)

theorem mbedtlsMpiModMpi_of_small (hw : 0 < w) (hA : A.Small w) (hB : B.Small w)
    (hX : X.n ≤ mpiDivLimbs) (hposB : 0 < B.val) :
    ∃ Z, mbedtlsMpiModMpi w X A B = .ok Z ∧ Z.val = A.val % B.val ∧ Z.Small w := by
  have hdiv := hA.n_le
  have hmax : mpiDivLimbs = mbedtlsMpiMaxLimbs - 2 := rfl
  have hlimbs : 2 ≤ mbedtlsMpiMaxLimbs := by decide
  have hmod : limbCount w (A.val % B.val) ≤ mpiDivLimbs := by
    have hnonneg := Int.emod_nonneg A.val (Int.ne_of_gt hposB)
    have hlt := Int.emod_lt_of_pos A.val hposB
    exact Nat.le_trans (limbCount_mono hw (by omega)) hB.val_le
  have hrem : limbCount w (A.val.tmod B.val) ≤ mpiDivLimbs := by
    refine Nat.le_trans (limbCount_mono hw ?_) hA.val_le
    rw [Int.natAbs_tmod]
    exact Nat.mod_le _ _
  unfold mbedtlsMpiModMpi
  rw [if_neg (by omega), if_neg (by omega), if_neg (by omega)]
  apply MpiNum.grow_of_le _ hX hmod
  apply Nat.max_le.mpr
  constructor
  · split
    · exact Nat.zero_le _
    · exact Nat.max_le.mpr ⟨by decide, hrem⟩
  · split
    · exact hB.n_le
    · exact Nat.zero_le _

end Small

/-! ## What a result says -/

section Inversion

variable {w : Nat} {X A B Z : MpiNum}

theorem of_mbedtlsMpiSubMpi (hA : 0 ≤ A.val) (hB : 0 ≤ B.val)
    (h : mbedtlsMpiSubMpi w X A B = .ok Z) :
    Z.val = A.val - B.val ∧ X.n ≤ Z.n ∧ (B.val ≤ A.val → A.n ≤ Z.n) := by
  unfold mbedtlsMpiSubMpi at h
  rw [if_pos (by omega)] at h
  obtain ⟨hval, hX, hn, _⟩ := MpiNum.of_grow h
  refine ⟨hval, hX, ?_⟩
  intro hle
  rwa [if_pos (by omega)] at hn

theorem of_mbedtlsMpiSubInt (hA : 0 < A.val) (h : mbedtlsMpiSubInt w X A = .ok Z) :
    Z.val = A.val - 1 ∧ X.n ≤ Z.n ∧ A.n ≤ Z.n := by
  obtain ⟨hval, hX, hn⟩ := of_mbedtlsMpiSubMpi (Int.le_of_lt hA) (by decide) h
  exact ⟨hval, hX, hn hA⟩

theorem of_mbedtlsMpiMulMpi (h : mbedtlsMpiMulMpi w X A B = .ok Z) :
    Z.val = A.val * B.val ∧ limbCount w A.val + limbCount w B.val ≤ Z.n := by
  obtain ⟨hval, _, hn, _⟩ := MpiNum.of_grow h
  exact ⟨hval, hn⟩

theorem of_mbedtlsMpiModMpi (h : mbedtlsMpiModMpi w X A B = .ok Z) :
    0 < B.val ∧ Z.val = A.val % B.val ∧ X.n ≤ Z.n ∧
      (B.val.natAbs ≤ A.val.natAbs → A.n ≤ mpiDivLimbs) := by
  have hlimbs : mbedtlsMpiMaxLimbs = mpiDivLimbs + 2 := rfl
  unfold mbedtlsMpiModMpi at h
  split at h
  · exact absurd h (by simp)
  split at h
  · exact absurd h (by simp)
  split at h
  · exact absurd h (by simp)
  next hneg hzero hfits =>
  obtain ⟨hval, hX, _⟩ := MpiNum.of_grow h
  refine ⟨by omega, hval, hX, ?_⟩
  intro hle
  by_contra hbig
  exact hfits ⟨hle, by omega⟩

theorem of_mbedtlsMpiInvModOdd (hn : 0 < B.n) (h : mbedtlsMpiInvModOdd w X A B = .ok Z) :
    A.val * Z.val % B.val = 1 ∧ 0 ≤ Z.val ∧ Z.val < B.val ∧ limbCount w Z.val ≤ Z.n := by
  unfold mbedtlsMpiInvModOdd at h
  split at h
  · exact absurd h (by simp)
  next T hT =>
  obtain ⟨hpos, hmod, _⟩ := of_mbedtlsMpiModMpi hT
  split at h
  · exact absurd h (by simp)
  next hodd =>
  split at h
  · exact absurd h (by simp)
  split at h
  · exact absurd h (by simp)
  next hgrow hgcd =>
  obtain ⟨hval, _, hlimbs, _⟩ := MpiNum.of_grow h
  have hbezout := Int.gcd_eq_gcd_ab T.val B.val
  have hinverse : T.val * Int.gcdA T.val B.val % B.val = 1 := by
    have hone : T.val * Int.gcdA T.val B.val =
        1 + B.val * -Int.gcdB T.val B.val := by
      rw [Int.mul_neg]
      omega
    rw [hone, Int.add_mul_emod_self_left]
    exact Int.emod_eq_of_lt (by decide) (by omega)
  refine ⟨?_, ?_, ?_, ?_⟩
  · rw [hval, ← hinverse, hmod]
    simp [Int.mul_emod]
  · rw [hval]
    exact Int.emod_nonneg _ (Int.ne_of_gt hpos)
  · rw [hval]
    exact Int.emod_lt_of_pos _ hpos
  · rw [hval]
    rw [if_neg (show max T.n B.n ≠ 0 by omega)] at hlimbs
    exact Nat.le_trans (Nat.le_max_right _ _) hlimbs

end Inversion

end TfPsaCrypto
