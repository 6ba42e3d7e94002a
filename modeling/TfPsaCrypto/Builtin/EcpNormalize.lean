import Mathlib.Algebra.BigOperators.Associated
import Mathlib.Data.Int.GCD
import Mathlib.Data.Nat.Prime.Int
import Mathlib.Tactic.Linarith
import Mathlib.Tactic.LinearCombination
import TfPsaCrypto.Builtin.Ecp

/-!
# Normalising Jacobian points

`ecp_normalize_jac` and `ecp_normalize_jac_many` of `ecp.c`. The operations modulo `grp->P` are
logged.
-/

namespace TfPsaCrypto.Ecp

open Function (update)

/-! ## Correction loops -/

/-- The loop of `MOD_SUB`; `none` is for more than `fuel` passes. -/
def modSubLoop (P : Nat) : Nat → Int → Option Int
  | 0, N => if N < 0 then none else some N
  | fuel + 1, N => if N < 0 then modSubLoop P fuel (N + P) else some N

def modAddLoop (P : Nat) : Nat → Int → Option Int
  | 0, N => if N ≥ P then none else some N
  | fuel + 1, N => if N ≥ P then modAddLoop P fuel (N - P) else some N

def Reduced (grp : EcpGroup) (x : Int) : Prop := 0 ≤ x ∧ x < grp.P

/-- The result of `grp->modp` is reduced by at most `K` additions or subtractions of `P`. -/
def CloseModp (grp : EcpGroup) (K : Nat) : Prop :=
  ∀ f ∈ grp.modp, ∀ x : Nat, x < 2 ^ (2 * grp.pbits) → -(K * grp.P) ≤ f x ∧ f x < (K + 1) * grp.P

theorem modSubLoop_eq {P : Nat} {N : Int} {k : Nat} (h : -(k * P) ≤ N) :
    modSubLoop P k N = some (if N < 0 then N % P else N) := by
  induction k generalizing N with
  | zero =>
    have hN : ¬ N < 0 := by
      simp at h
      omega
    rw [modSubLoop, if_neg hN, if_neg hN]
  | succ k ih =>
    rw [modSubLoop]
    split
    case isFalse => rfl
    case isTrue hneg =>
      rw [ih (by push_cast at h; linarith), Int.add_emod_right]
      split
      case isTrue => rfl
      case isFalse hN => rw [← Int.add_emod_right, Int.emod_eq_of_lt (by omega) (by omega)]

theorem modAddLoop_eq {P : Nat} {N : Int} {k : Nat} (h : N < (k + 1) * P) :
    modAddLoop P k N = some (if N ≥ P then N % P else N) := by
  induction k generalizing N with
  | zero =>
    have hN : ¬ N ≥ P := by
      simp at h
      omega
    rw [modAddLoop, if_neg hN, if_neg hN]
  | succ k ih =>
    rw [modAddLoop]
    split
    case isFalse => rfl
    case isTrue hge =>
      rw [ih (by push_cast at h; linarith), Int.sub_emod_right]
      split
      case isTrue => rfl
      case isFalse hN => rw [← Int.sub_emod_right, Int.emod_eq_of_lt (by omega) (by omega)]

/-! ## Normalisation -/

/-- `mbedtls_mpi_core_gcd_modinv_odd`: the number in `I`, which `bignum_core.h` leaves open where
there is no inverse. -/
structure CoreModinv where
  inverse : Nat → Nat → Nat
  inverse_lt : ∀ {A N}, N % 2 = 1 → 1 < N → A ≤ N → inverse A N < N
  mul_inverse : ∀ {A N}, N % 2 = 1 → 1 < N → A ≤ N → A.Coprime N → A * inverse A N % N = 1

/-- `mbedtls_mpi_gcd_modinv_odd` with `I` alone; the greatest common divisor is not looked at. -/
def mbedtlsMpiGcdModinvOdd (core : CoreModinv) (A : Int) (N : Nat) : Except EcpError Int :=
  if A < 0 ∨ A > N ∨ N % 2 ≠ 1 ∨ N = 1 then .error .mpiBadInputData
  else .ok (core.inverse A.toNat N)

/-- An operation modulo `P` with its operands and its result. -/
inductive FieldOp where
  | mul (A B X : Int)
  | inv (A X : Int)

abbrev FieldM := StateT (List FieldOp) (Except EcpError)

def mpiEcpMul (grp : EcpGroup) (A B : Int) : FieldM Int := fun log =>
  (mpiMulMod grp A B).map fun X => (X, log ++ [.mul A B X])

def mpiEcpInv (core : CoreModinv) (grp : EcpGroup) (A : Int) : FieldM Int := fun log =>
  (mbedtlsMpiGcdModinvOdd core A grp.P).map fun X => (X, log ++ [.inv A X])

/-- The end of `ecp_normalize_jac`, and of an iteration of `ecp_normalize_jac_many`. -/
def ecpScale (grp : EcpGroup) (pt : EcpPoint) (t : Int) : FieldM EcpPoint := do
  let Y ← mpiEcpMul grp pt.Y t
  let t ← mpiEcpMul grp t t
  let X ← mpiEcpMul grp pt.X t
  let Y ← mpiEcpMul grp Y t
  pure { X := X, Y := Y, Z := 1 }

def ecpNormalizeJac (core : CoreModinv) (grp : EcpGroup) (pt : EcpPoint) : FieldM EcpPoint :=
  if pt.Z = 0 then pure pt
  else do
    let T ← mpiEcpInv core grp pt.Z
    ecpScale grp pt T

def ecpProducts (grp : EcpGroup) (T : Nat → EcpPoint) : Nat → FieldM (Nat → Int)
  | 0 => pure (update (fun _ => 0) 0 (T 0).Z)
  | n + 1 => do
    let c ← ecpProducts grp T n
    let x ← mpiEcpMul grp (c n) (T (n + 1)).Z
    pure (update c (n + 1) x)

structure JacMany where
  c : Nat → Int
  T : Nat → EcpPoint

/-- The first part of an iteration: `t` and the array `c`. -/
def ecpShare (grp : EcpGroup) (s : JacMany) (i : Nat) : FieldM (Int × (Nat → Int)) :=
  if i > 0 then do
    let t ← mpiEcpMul grp (s.c i) (s.c (i - 1))
    let x ← mpiEcpMul grp (s.c i) (s.T i).Z
    pure (t, update s.c (i - 1) x)
  else pure (s.c 0, s.c)

def ecpNormalizeStep (grp : EcpGroup) (s : JacMany) (i : Nat) : FieldM JacMany := do
  let (t, c) ← ecpShare grp s i
  let pt ← ecpScale grp (s.T i) t
  pure { c := c, T := update s.T i pt }

/-- The arrays after `k` iterations, with `n = T_size - 1`. -/
def ecpNormalizeRun (core : CoreModinv) (grp : EcpGroup) (T : Nat → EcpPoint) (n : Nat) :
    Nat → FieldM JacMany
  | 0 => do
    let c ← ecpProducts grp T n
    let u ← mpiEcpInv core grp (c n)
    pure { c := update c n u, T := T }
  | k + 1 => do
    let s ← ecpNormalizeRun core grp T n k
    ecpNormalizeStep grp s (n - k)

def ecpNormalizeJacMany (core : CoreModinv) (grp : EcpGroup) (T : Nat → EcpPoint)
    (T_size : Nat) : FieldM (Nat → EcpPoint) :=
  if T_size < 2 then do
    let pt ← ecpNormalizeJac core grp (T 0)
    pure (update T 0 pt)
  else do
    let s ← ecpNormalizeRun core grp T (T_size - 1) T_size
    pure s.T

/-! ## Operations on reduced operands -/

def FieldOp.InRange (grp : EcpGroup) : FieldOp → Prop
  | mul A B X => Reduced grp A ∧ Reduced grp B ∧ Reduced grp X
  | inv A X => Reduced grp A ∧ Reduced grp X

def FieldOp.isInv : FieldOp → Bool
  | mul _ _ _ => false
  | inv _ _ => true

/-- The call succeeds with a result in `Q`, after `invs` inversions, and all its operations have
reduced operands and results. -/
def Does {α : Type} (grp : EcpGroup) (m : FieldM α) (invs : Nat) (Q : α → Prop) : Prop :=
  ∀ log, ∃ x ops, m log = .ok (x, log ++ ops) ∧ Q x ∧ (∀ op ∈ ops, op.InRange grp) ∧
    ops.countP FieldOp.isInv = invs

section Does

variable {α β : Type} {grp : EcpGroup} {m : FieldM α} {a b : Nat} {Q : α → Prop} {R : β → Prop}

theorem Does.pure {x : α} (hx : Q x) : Does grp (pure x) 0 Q := fun log =>
  ⟨x, [], by rw [List.append_nil]; rfl, hx, nofun, rfl⟩

theorem Does.bind {f : α → FieldM β} (hm : Does grp m a Q) (hf : ∀ x, Q x → Does grp (f x) b R) :
    Does grp (m >>= f) (a + b) R := by
  intro log
  obtain ⟨x, ops, hx, hQ, hops, hinv⟩ := hm log
  obtain ⟨y, ops', hy, hR, hops', hinv'⟩ := hf x hQ (log ++ ops)
  refine ⟨y, ops ++ ops', ?_, hR, ?_, by rw [List.countP_append, hinv, hinv']⟩
  · rw [← List.append_assoc, ← hy]
    change (m log >>= fun r => f r.1 r.2) = _
    rw [hx]
    rfl
  · intro op hop
    exact (List.mem_append.mp hop).elim (hops op) (hops' op)

theorem Does.andThen {x : α} {f : α → FieldM β} (hm : Does grp m a (· = x))
    (hf : Does grp (f x) 0 R) : Does grp (m >>= f) a R :=
  hm.bind (b := 0) fun _ h => h ▸ hf

theorem Does.mono {Q' : α → Prop} (hm : Does grp m a Q) (h : ∀ x, Q x → Q' x) :
    Does grp m a Q' := fun log => by
  obtain ⟨x, ops, hx, hQ, hops⟩ := hm log
  exact ⟨x, ops, hx, h x hQ, hops⟩

end Does

section Operations

variable {grp : EcpGroup} {core : CoreModinv} {A B : Int} {pt : EcpPoint}

def inverseOf (core : CoreModinv) (grp : EcpGroup) (A : Int) : Int := core.inverse A.toNat grp.P

def scaledBy (grp : EcpGroup) (pt : EcpPoint) (t : Int) : EcpPoint :=
  { X := pt.X * (t * t % grp.P) % grp.P, Y := (pt.Y * t % grp.P) * (t * t % grp.P) % grp.P, Z := 1 }

structure ReducedPoint (grp : EcpGroup) (pt : EcpPoint) : Prop where
  x : Reduced grp pt.X
  y : Reduced grp pt.Y
  z : Reduced grp pt.Z

theorem toNat_le (hA : Reduced grp A) : A.toNat ≤ grp.P := by
  have hlt := hA.2
  omega

variable (hgrp : ShortWeierstrass grp)
include hgrp

theorem mpiEcpMul_does (hA : Reduced grp A) (hB : Reduced grp B) :
    Does grp (mpiEcpMul grp A B) 0 (· = A * B % grp.P) := fun log =>
  ⟨_, [.mul A B (A * B % grp.P)], by
      rw [mpiEcpMul, hgrp.mpiMulMod_eq hA.1 hA.2 hB.1 hB.2]
      rfl, rfl,
    fun _ hop => List.mem_singleton.mp hop ▸ ⟨hA, hB, hgrp.emod_bounds _⟩, rfl⟩

theorem p_odd : grp.P % 2 = 1 :=
  hgrp.prime.eq_two_or_odd.resolve_left (Nat.ne_of_gt (by have := hgrp.large; omega))

theorem reduced_inverseOf (hA : Reduced grp A) : Reduced grp (inverseOf core grp A) :=
  ⟨Int.natCast_nonneg _, Int.ofNat_lt.mpr
    (core.inverse_lt (p_odd hgrp) hgrp.prime.one_lt (toNat_le hA))⟩

theorem mul_inverseOf (hA : Reduced grp A) (hne : A ≠ 0) :
    A * inverseOf core grp A ≡ 1 [ZMOD grp.P] := by
  obtain ⟨n, rfl⟩ := Int.eq_ofNat_of_zero_le hA.1
  have hlt : n < grp.P := Int.ofNat_lt.mp hA.2
  have hpos : 0 < n := Nat.pos_of_ne_zero fun h => hne (by rw [h]; rfl)
  have hmul := core.mul_inverse (p_odd hgrp) hgrp.prime.one_lt hlt.le
    (Nat.coprime_of_lt_prime hpos.ne' hlt hgrp.prime).symm
  have hone : 1 % grp.P = 1 := Nat.mod_eq_of_lt hgrp.prime.one_lt
  rw [inverseOf, Int.toNat_natCast, ← Int.natCast_mul]
  exact (Int.natCast_modEq_iff (b := 1)).mpr (hmul.trans hone.symm)

theorem eq_inverseOf {t : Int} (hA : Reduced grp A) (ht : Reduced grp t)
    (h : A * t ≡ 1 [ZMOD grp.P]) : t = inverseOf core grp A := by
  have hne : A ≠ 0 := by
    rintro rfl
    rw [zero_mul] at h
    have hdvd := (Int.modEq_iff_dvd.mp h)
    rw [sub_zero] at hdvd
    have hlarge := hgrp.large
    have hle := Int.le_of_dvd one_pos hdvd
    omega
  have hinv : Reduced grp (inverseOf core grp A) := reduced_inverseOf hgrp hA
  have hmul : A * inverseOf core grp A ≡ 1 [ZMOD grp.P] := mul_inverseOf hgrp hA hne
  have hcong : t ≡ inverseOf core grp A [ZMOD grp.P] :=
    calc t = 1 * t := (one_mul t).symm
      _ ≡ A * inverseOf core grp A * t [ZMOD grp.P] := hmul.symm.mul_right t
      _ = A * t * inverseOf core grp A := by ring
      _ ≡ 1 * inverseOf core grp A [ZMOD grp.P] := h.mul_right _
      _ = inverseOf core grp A := one_mul _
  rwa [Int.ModEq, Int.emod_eq_of_lt ht.1 ht.2, Int.emod_eq_of_lt hinv.1 hinv.2] at hcong

theorem mpiEcpInv_does (hA : Reduced grp A) :
    Does grp (mpiEcpInv core grp A) 1 (· = inverseOf core grp A) := fun log =>
  ⟨_, [.inv A (inverseOf core grp A)], by
      have hlarge := hgrp.large
      have hodd := p_odd hgrp
      have hA' := hA
      rw [mpiEcpInv, mbedtlsMpiGcdModinvOdd, if_neg (by unfold Reduced at hA'; omega)]
      rfl, rfl,
    fun _ hop => List.mem_singleton.mp hop ▸ ⟨hA, reduced_inverseOf hgrp hA⟩, rfl⟩

theorem ecpScale_does (hpt : ReducedPoint grp pt) (hA : Reduced grp A) :
    Does grp (ecpScale grp pt A) 0 (· = scaledBy grp pt A) := by
  refine (mpiEcpMul_does hgrp hpt.y hA).andThen ?_
  refine (mpiEcpMul_does hgrp hA hA).andThen ?_
  refine (mpiEcpMul_does hgrp hpt.x (hgrp.emod_bounds _)).andThen ?_
  refine (mpiEcpMul_does hgrp (hgrp.emod_bounds _) (hgrp.emod_bounds _)).andThen ?_
  exact .pure rfl

theorem ecpNormalizeJac_does (hpt : ReducedPoint grp pt) (hz : pt.Z ≠ 0) :
    Does grp (ecpNormalizeJac core grp pt) 1 (· = scaledBy grp pt (inverseOf core grp pt.Z)) := by
  rw [ecpNormalizeJac, if_neg hz]
  exact (mpiEcpInv_does hgrp hpt.z).andThen
    (ecpScale_does hgrp hpt (reduced_inverseOf hgrp hpt.z))

end Operations

/-! ## The shared inversion -/

def productZ (T : Nat → EcpPoint) (i : Nat) : Int := ∏ l ∈ Finset.range (i + 1), (T l).Z

def ZeroFree (T : Nat → EcpPoint) (n : Nat) : Prop := ∀ l ≤ n, (T l).Z ≠ 0

/-- What the source says of the arrays when the indices below `m` are still to be done. That `c`
holds an inverse, and that the points are normalised, rests on there being no zero. -/
structure Unwound (core : CoreModinv) (grp : EcpGroup) (T : Nat → EcpPoint) (n m : Nat)
    (s : JacMany) : Prop where
  products : ∀ j, j + 1 < m → Reduced grp (s.c j) ∧ s.c j ≡ productZ T j [ZMOD grp.P]
  current : ∀ i, m = i + 1 → Reduced grp (s.c i) ∧
    (ZeroFree T n → s.c i * productZ T i ≡ 1 [ZMOD grp.P])
  todo : ∀ j < m, s.T j = T j
  done : ZeroFree T n → ∀ j, m ≤ j → j ≤ n →
    s.T j = scaledBy grp (T j) (inverseOf core grp (T j).Z)

section Many

variable {grp : EcpGroup} {core : CoreModinv} {T : Nat → EcpPoint} {n : Nat}
  (hgrp : ShortWeierstrass grp) (hT : ∀ i ≤ n, ReducedPoint grp (T i))
include hgrp

theorem productZ_ne {i : Nat} (hT : ∀ l ≤ n, ReducedPoint grp (T l)) (hi : i ≤ n)
    (hz : ZeroFree T n) : productZ T i % grp.P ≠ 0 := by
  intro hzero
  have hprime := Nat.prime_iff_prime_int.mp hgrp.prime
  obtain ⟨l, hl, hdvd⟩ := hprime.exists_mem_finset_dvd (Int.dvd_of_emod_eq_zero hzero)
  have hle : l ≤ n := (Nat.lt_succ_iff.mp (Finset.mem_range.mp hl)).trans hi
  have hred := (hT l hle).z
  exact hz l hle (Int.eq_zero_of_dvd_of_nonneg_of_lt hred.1 hred.2 hdvd)

include hT

theorem ecpProducts_does :
    Does grp (ecpProducts grp T n) 0 fun c =>
      ∀ j ≤ n, Reduced grp (c j) ∧ c j ≡ productZ T j [ZMOD grp.P] := by
  induction n with
  | zero =>
    refine .pure fun j hj => ?_
    obtain rfl := Nat.le_zero.mp hj
    rw [Function.update_self, productZ, zero_add, Finset.prod_range_one]
    exact ⟨(hT 0 hj).z, .rfl⟩
  | succ n ih =>
    refine (ih fun i hi => hT i (Nat.le_succ_of_le hi)).bind (b := 0) fun c hc => ?_
    have hlast := hc n (Nat.le_refl n)
    refine (mpiEcpMul_does hgrp hlast.1 (hT (n + 1) (Nat.le_refl _)).z).andThen ?_
    refine .pure fun j hj => ?_
    rcases Nat.lt_succ_iff_lt_or_eq.mp (Nat.lt_succ_of_le hj) with hlt | rfl
    · rw [Function.update_of_ne (Nat.ne_of_lt hlt)]
      exact hc j (Nat.lt_succ_iff.mp hlt)
    · rw [Function.update_self, productZ, Finset.prod_range_succ]
      exact ⟨hgrp.emod_bounds _, (Int.mod_modEq _ _).trans (hlast.2.mul_right _)⟩

theorem ecpNormalizeStart_does :
    Does grp (ecpNormalizeRun core grp T n 0) 1 (Unwound core grp T n (n + 1)) := by
  refine (ecpProducts_does hgrp hT).bind (b := 1) fun c hc => ?_
  have hlast := hc n (Nat.le_refl n)
  refine (mpiEcpInv_does hgrp hlast.1).andThen ?_
  refine .pure
    { products := fun j hj => ?products, current := fun i hi => ?current, todo := fun _ _ => rfl
      done := fun _ j hj hjn => absurd hj (Nat.not_le_of_lt (Nat.lt_succ_of_le hjn)) }
  case products =>
    simp only [Function.update_of_ne (show j ≠ n by omega)]
    exact hc j (by omega)
  case current =>
    obtain rfl := Nat.succ.inj hi
    simp only [Function.update_self]
    refine ⟨reduced_inverseOf hgrp hlast.1, fun hz => ?_⟩
    have hne : c n ≠ 0 := fun hzero => productZ_ne hgrp hT (Nat.le_refl n) hz (by
      have hcong := hlast.2
      rw [hzero] at hcong
      exact hcong.symm)
    rw [mul_comm]
    exact (hlast.2.symm.mul_right _).trans (mul_inverseOf hgrp hlast.1 hne)

theorem ecpShare_does {i : Nat} {s : JacMany} (hi : i ≤ n) (h : Unwound core grp T n (i + 1) s) :
    Does grp (ecpShare grp s i) 0 fun r =>
      Reduced grp r.1 ∧ (ZeroFree T n → (T i).Z * r.1 ≡ 1 [ZMOD grp.P]) ∧
      (∀ j, j + 1 < i → r.2 j = s.c j) ∧ ∀ k, i = k + 1 → Reduced grp (r.2 k) ∧
        (ZeroFree T n → r.2 k * productZ T k ≡ 1 [ZMOD grp.P]) := by
  have hcur := h.current i rfl
  cases i with
  | zero =>
    refine .pure ⟨hcur.1, fun hz => ?_, fun _ hj => absurd hj (Nat.not_lt_zero _), nofun⟩
    have hone := hcur.2 hz
    rwa [productZ, zero_add, Finset.prod_range_one, mul_comm] at hone
  | succ k =>
    have hprev := h.products k (Nat.lt_succ_self _)
    have hprod : productZ T (k + 1) = productZ T k * (T (k + 1)).Z := Finset.prod_range_succ _ _
    rw [ecpShare, if_pos (Nat.succ_pos k), h.todo _ (Nat.lt_succ_self _), Nat.add_sub_cancel]
    refine (mpiEcpMul_does hgrp hcur.1 hprev.1).andThen ?_
    refine (mpiEcpMul_does hgrp hcur.1 (hT _ hi).z).andThen ?_
    refine .pure ⟨hgrp.emod_bounds _, fun hz => ?_, fun j hj => ?_, fun l hl => ?_⟩
    · calc (T (k + 1)).Z * (s.c (k + 1) * s.c k % grp.P)
          ≡ (T (k + 1)).Z * (s.c (k + 1) * s.c k) [ZMOD grp.P] := (Int.mod_modEq _ _).mul_left _
        _ = s.c (k + 1) * (T (k + 1)).Z * s.c k := by ring
        _ ≡ s.c (k + 1) * (T (k + 1)).Z * productZ T k [ZMOD grp.P] := hprev.2.mul_left _
        _ = s.c (k + 1) * productZ T (k + 1) := by rw [hprod]; ring
        _ ≡ 1 [ZMOD grp.P] := hcur.2 hz
    · exact Function.update_of_ne (by omega) _ _
    · obtain rfl := Nat.succ.inj hl
      simp only [Function.update_self]
      refine ⟨hgrp.emod_bounds _, fun hz => ?_⟩
      calc s.c (k + 1) * (T (k + 1)).Z % grp.P * productZ T k
          ≡ s.c (k + 1) * (T (k + 1)).Z * productZ T k [ZMOD grp.P] :=
            (Int.mod_modEq _ _).mul_right _
        _ = s.c (k + 1) * productZ T (k + 1) := by rw [hprod]; ring
        _ ≡ 1 [ZMOD grp.P] := hcur.2 hz

theorem ecpNormalizeStep_does {i : Nat} {s : JacMany} (hi : i ≤ n)
    (h : Unwound core grp T n (i + 1) s) :
    Does grp (ecpNormalizeStep grp s i) 0 (Unwound core grp T n i) := by
  refine (ecpShare_does hgrp hT hi h).bind (b := 0) fun r ⟨hr, hone, hkept, hnext⟩ => ?_
  rw [h.todo i (Nat.lt_succ_self i)]
  refine (ecpScale_does hgrp (hT i hi) hr).andThen ?_
  refine .pure
    { products := fun j hj => ?products, current := hnext, todo := fun j hj => ?todo
      done := fun hz j hj hjn => ?done }
  case products =>
    dsimp only
    rw [hkept j hj]
    exact h.products j (Nat.lt_succ_of_lt hj)
  case todo =>
    dsimp only
    rw [Function.update_of_ne (Nat.ne_of_lt hj)]
    exact h.todo j (Nat.lt_succ_of_lt hj)
  case done =>
    dsimp only
    rcases Nat.eq_or_lt_of_le hj with rfl | hlt
    · rw [Function.update_self, ← eq_inverseOf hgrp (hT i hi).z hr (hone hz)]
    · rw [Function.update_of_ne hlt.ne']
      exact h.done hz j hlt hjn

theorem ecpNormalizeRun_does {k : Nat} (hk : k ≤ n + 1) :
    Does grp (ecpNormalizeRun core grp T n k) 1 (Unwound core grp T n (n + 1 - k)) := by
  induction k with
  | zero => exact ecpNormalizeStart_does hgrp hT
  | succ k ih =>
    refine (ih (Nat.le_of_succ_le hk)).bind (b := 0) fun s hs => ?_
    rw [Nat.succ_sub (Nat.lt_succ_iff.mp hk)] at hs
    rw [Nat.add_sub_add_right]
    exact ecpNormalizeStep_does hgrp hT (Nat.sub_le n k) hs

end Many

/-! ## The contract -/

def NormalizedAlike (core : CoreModinv) (grp : EcpGroup) (pt q : EcpPoint) : Prop :=
  (∃ ops, ecpNormalizeJac core grp pt [] = .ok (q, ops)) ∧ Reduced grp q.X ∧ Reduced grp q.Y ∧
    q.Z = 1

/-- What is asked of `ecp_normalize_jac_many` for an array. -/
structure NormalizesMany (core : CoreModinv) (grp : EcpGroup) (T : Nat → EcpPoint)
    (T_size : Nat) : Prop where
  points : (∀ i < T_size, (T i).Z ≠ 0) →
    Does grp (ecpNormalizeJacMany core grp T T_size) 1 fun T' =>
      ∀ i < T_size, NormalizedAlike core grp (T i) (T' i)
  loop : 2 ≤ T_size → (∀ i < T_size, (T i).Z ≠ 0) → ∀ k < T_size,
    Does grp (ecpNormalizeRun core grp T (T_size - 1) k) 1 fun s =>
      (∀ j < T_size - 1 - k, s.c j ≡ productZ T j [ZMOD grp.P]) ∧
      s.c (T_size - 1 - k) * productZ T (T_size - 1 - k) ≡ 1 [ZMOD grp.P]
  fails : 2 ≤ T_size → (∃ i < T_size, (T i).Z = 0) →
    ∃ e, ecpNormalizeJacMany core grp T T_size [] = .error e
  operations : ∀ T' ops, ecpNormalizeJacMany core grp T T_size [] = .ok (T', ops) →
    ∀ op ∈ ops, op.InRange grp

/-- The wrappers take reduced operands to reduced results, with loops that end after one pass, or
after `K` in a multiplication. -/
structure WrappersReduce (grp : EcpGroup) (K : Nat) : Prop where
  mul : ∀ A B, Reduced grp A → Reduced grp B →
    mpiMulMod grp A B = .ok (A * B % grp.P) ∧ Reduced grp (A * B % grp.P) ∧
    ∀ f ∈ grp.modp, (modSubLoop grp.P K (f (A * B)) >>= modAddLoop grp.P K) =
      some (A * B % grp.P)
  sub : ∀ A B, Reduced grp A → Reduced grp B →
    modSubLoop grp.P 1 (A - B) = some (mpiSubMod grp A B) ∧ Reduced grp (mpiSubMod grp A B)
  add : ∀ A B, Reduced grp A → Reduced grp B →
    modAddLoop grp.P 1 (A + B) = some (mpiAddMod grp A B) ∧ Reduced grp (mpiAddMod grp A B)

section Contract

variable {grp : EcpGroup} {core : CoreModinv} {T : Nat → EcpPoint} {T_size K : Nat}
  (hgrp : ShortWeierstrass grp)
include hgrp

theorem wrappersReduce (hclose : CloseModp grp K) : WrappersReduce grp K := by
  refine ⟨fun A B hA hB => ⟨hgrp.mpiMulMod_eq hA.1 hA.2 hB.1 hB.2, hgrp.emod_bounds _, ?_⟩,
    fun A B hA hB => ⟨?_, hgrp.mpiSubMod_bounds hA.2 hB.1⟩,
    fun A B hA hB => ⟨?_, hgrp.mpiAddMod_bounds hA.1 hB.1⟩⟩
  · intro f hf
    obtain ⟨m, rfl⟩ := Int.eq_ofNat_of_zero_le hA.1
    obtain ⟨n, rfl⟩ := Int.eq_ofNat_of_zero_le hB.1
    have hP : grp.P < 2 ^ grp.pbits := by
      rw [hgrp.pbits]
      exact Nat.lt_size_self _
    have hlt : m * n < 2 ^ (2 * grp.pbits) := by
      rw [Nat.two_mul, Nat.pow_add]
      exact Nat.mul_lt_mul'' ((Int.ofNat_lt.mp hA.2).trans hP) ((Int.ofNat_lt.mp hB.2).trans hP)
    obtain ⟨hlow, hhigh⟩ := hclose f hf _ hlt
    have hmod := hgrp.modp f hf _ hlt
    rw [← Int.natCast_mul, modSubLoop_eq hlow, ← hmod.eq]
    change modAddLoop grp.P K _ = _
    split
    case isTrue =>
      have hbounds := hgrp.emod_bounds (f (m * n : Nat))
      rw [modAddLoop_eq (by linarith), if_neg (Int.not_le.mpr hbounds.2)]
    case isFalse hneg =>
      rw [modAddLoop_eq hhigh]
      split
      case isTrue => rfl
      case isFalse hge => rw [Int.emod_eq_of_lt (Int.not_lt.mp hneg) (Int.not_le.mp hge)]
  · have hlow : -(((1 : Nat) : Int) * grp.P) ≤ A - B := by
      have h1 := hA.1
      have h2 := hB.2
      push_cast
      linarith
    exact modSubLoop_eq hlow
  · have hhigh : A + B < (((1 : Nat) : Int) + 1) * grp.P := by
      have h1 := hA.2
      have h2 := hB.2
      push_cast
      linarith
    exact modAddLoop_eq hhigh

theorem normalizedAlike {pt : EcpPoint} (hpt : ReducedPoint grp pt) (hz : pt.Z ≠ 0) :
    NormalizedAlike core grp pt (scaledBy grp pt (inverseOf core grp pt.Z)) := by
  have hdoes : Does grp (ecpNormalizeJac core grp pt) 1 _ := ecpNormalizeJac_does hgrp hpt hz
  obtain ⟨_, ops, hrun, rfl, -⟩ := hdoes []
  exact ⟨⟨_, hrun⟩, hgrp.emod_bounds _, hgrp.emod_bounds _, rfl⟩

/-- Every call on reduced points succeeds, with one inversion unless it is for one point at
infinity, and with reduced operands. -/
theorem ecpNormalizeJacMany_does (core : CoreModinv) (hsize : 1 ≤ T_size)
    (hT : ∀ i < T_size, ReducedPoint grp (T i)) :
    Does grp (ecpNormalizeJacMany core grp T T_size)
      (if T_size < 2 ∧ (T 0).Z = 0 then 0 else 1) fun T' =>
        (∀ i < T_size, (T i).Z ≠ 0) → ∀ i < T_size, NormalizedAlike core grp (T i) (T' i) := by
  unfold ecpNormalizeJacMany
  split
  case isTrue hone =>
    obtain rfl : T_size = 1 := by omega
    have hpt := hT 0 Nat.one_pos
    by_cases hz : (T 0).Z = 0
    · rw [if_pos ⟨hone, hz⟩, ecpNormalizeJac, if_pos hz]
      exact (Does.pure (Q := fun _ => True) trivial).bind (b := 0) fun _ _ =>
        .pure fun hne => absurd hz (hne 0 Nat.one_pos)
    · rw [if_neg fun h => hz h.2]
      refine (ecpNormalizeJac_does hgrp hpt hz).andThen ?_
      refine .pure fun _ i hi => ?_
      obtain rfl := Nat.lt_one_iff.mp hi
      rw [Function.update_self]
      exact normalizedAlike hgrp hpt hz
  case isFalse htwo =>
    obtain ⟨n, rfl⟩ := Nat.exists_eq_add_of_le' hsize
    rw [if_neg fun h => htwo h.1, Nat.add_sub_cancel]
    refine (ecpNormalizeRun_does hgrp (fun i hi => hT i (Nat.lt_succ_of_le hi))
      (Nat.le_refl _)).bind (b := 0) fun s hs => .pure fun hz i hi => ?_
    rw [Nat.sub_self] at hs
    rw [hs.done (fun l hl => hz l (Nat.lt_succ_of_le hl)) i (Nat.zero_le i) (Nat.lt_succ_iff.mp hi)]
    exact normalizedAlike hgrp (hT i hi) (hz i hi)

/-- `ecp_normalize_jac_many` does what `ecp_normalize_jac` does for each point, but it does not
fail where a point of several is zero: `mbedtls_mpi_gcd_modinv_odd` does not ask for an inverse
to exist. -/
theorem ecpNormalizeJacMany_iff (hclose : CloseModp grp K) (hsize : 1 ≤ T_size)
    (hT : ∀ i < T_size, ReducedPoint grp (T i)) :
    WrappersReduce grp K ∧ (NormalizesMany core grp T T_size ↔
      ¬ (2 ≤ T_size ∧ ∃ i < T_size, (T i).Z = 0)) := by
  have hcall := ecpNormalizeJacMany_does hgrp core hsize hT
  obtain ⟨T', ops, hrun, -, hops, -⟩ := hcall []
  refine ⟨wrappersReduce hgrp hclose, fun h hzero => ?_, fun hzero => ?_⟩
  · obtain ⟨e, he⟩ := h.fails hzero.1 hzero.2
    rw [hrun] at he
    cases he
  · refine ⟨fun hz => ?_, fun htwo hz k hk => ?_, fun htwo hex => absurd ⟨htwo, hex⟩ hzero, ?_⟩
    · rw [if_neg fun h => hz 0 hsize h.2] at hcall
      exact hcall.mono fun T' h => h hz
    · obtain ⟨n, rfl⟩ := Nat.exists_eq_add_of_le' hsize
      have hk' := Nat.lt_succ_iff.mp hk
      refine (ecpNormalizeRun_does hgrp (fun i hi => hT i (Nat.lt_succ_of_le hi))
        (Nat.le_of_lt hk)).mono fun s hs => ?_
      rw [Nat.succ_sub hk'] at hs
      rw [Nat.add_sub_cancel]
      exact ⟨fun j hj => (hs.products j (Nat.succ_lt_succ hj)).2,
        (hs.current _ rfl).2 fun l hl => hz l (Nat.lt_succ_of_le hl)⟩
    · intro T'' ops' hrun' op hop
      rw [hrun] at hrun'
      cases hrun'
      exact hops op hop

end Contract

/-- An iteration of `mbedtls_mpi_core_gcd_modinv_odd` on `u`, `v`, `q` and `r`. -/
def gcdModinvStep (N : Nat) : Nat × Nat × Nat × Nat → Nat × Nat × Nat × Nat
  | (u, v, q, r) =>
    let d := (q + N - r) % N
    let (t1, t2, t3, t4) :=
      if u % 2 = 1 ∧ v % 2 = 1 then (u, v - u, r, d)
      else if u % 2 = 1 then (v - u, v, d, q)
      else (v - u, u, d, r)
    let t2 := t2 / 2
    let t4 := (if t4 % 2 = 0 then t4 else t4 + N) / 2
    if t2 < t1 then (t2, t1, t3, t4) else (t1, t2, t4, t3)

/-- The inverse by the extended Euclidean algorithm; without one, what 128 iterations leave, as
for numbers of one limb. -/
def euclidModinv : CoreModinv where
  inverse A N :=
    if A.Coprime N then (Int.gcdA A N % N).toNat
    else (Nat.iterate (gcdModinvStep N) 128 (A, N, 0, 1)).2.2.1 % N
  inverse_lt := by
    intro A N _ hN _
    split
    · have hlt := Int.emod_lt_of_pos (Int.gcdA A N) (Int.natCast_pos.mpr (Nat.zero_lt_of_lt hN))
      omega
    · exact Nat.mod_lt _ (Nat.zero_lt_of_lt hN)
  mul_inverse := by
    intro A N _ hN _ hcop
    have hne : (N : Int) ≠ 0 := by omega
    have hbezout := Int.gcd_eq_gcd_ab A N
    rw [Int.gcd_natCast_natCast, hcop, Nat.cast_one] at hbezout
    have hone : (A * (Int.gcdA A N % N) : Int) ≡ 1 [ZMOD N] := by
      refine ((Int.mod_modEq _ _).mul_left _).trans (Int.modEq_iff_dvd.mpr ⟨Int.gcdB A N, ?_⟩)
      linarith
    rw [if_pos hcop, ← Nat.mod_eq_of_lt hN]
    refine Int.natCast_modEq_iff.mp ?_
    rw [Nat.cast_mul, Int.toNat_of_nonneg (Int.emod_nonneg _ hne)]
    exact hone

def infinityFirst (i : Nat) : EcpPoint := if i = 0 then ⟨1, 1, 0⟩ else ⟨2, 5, 1⟩

theorem ecpNormalizeJacMany_infinity :
    ¬ NormalizesMany euclidModinv smallGroup infinityFirst 2 := by
  intro h
  have hT : ∀ i < 2, ReducedPoint smallGroup (infinityFirst i) := by
    intro i _
    unfold infinityFirst
    split <;> exact ⟨⟨by decide, by decide⟩, ⟨by decide, by decide⟩, ⟨by decide, by decide⟩⟩
  obtain ⟨_, _, hrun, -⟩ :=
    ecpNormalizeJacMany_does smallGroup_shortWeierstrass euclidModinv (by decide) hT []
  obtain ⟨e, he⟩ := h.fails (by decide) ⟨0, by decide, rfl⟩
  rw [hrun] at he
  cases he

theorem ecpNormalizeJacMany_iff_small :
    WrappersReduce smallGroup 0 ∧
      (NormalizesMany euclidModinv smallGroup (fun _ => ⟨8, 7, 2⟩) 2 ↔
        ¬ (2 ≤ 2 ∧ ∃ i < 2, ((fun _ => ⟨8, 7, 2⟩ : Nat → EcpPoint) i).Z = 0)) :=
  ecpNormalizeJacMany_iff smallGroup_shortWeierstrass nofun (by decide) fun _ _ =>
    ⟨⟨by decide, by decide⟩, ⟨by decide, by decide⟩, ⟨by decide, by decide⟩⟩

end TfPsaCrypto.Ecp
