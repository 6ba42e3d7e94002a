import Mathlib.Data.Int.ModEq
import Mathlib.Data.Nat.Size
import Mathlib.Tactic.NormNum.Prime
import Mathlib.Tactic.Positivity
import TfPsaCrypto.Library.Bytes

/-!
# Elliptic curve groups

The groups of `ecp.c` and the public keys that `mbedtls_ecp_check_pubkey` accepts. A bignum is the
integer that it denotes.
-/

namespace TfPsaCrypto.Ecp

open Bytes

/-! ## Groups -/

inductive EcpGroupId where
  | none
  | secp256r1
  | secp384r1
  | secp521r1
  | bp256r1
  | bp384r1
  | bp512r1
  | curve25519
  | secp256k1
  | curve448
  deriving DecidableEq, Repr

inductive EcpCurveType where
  | none
  | shortWeierstrass
  | montgomery
  deriving DecidableEq, Repr

inductive EcpError where
  | badInputData
  | bufferTooSmall
  | featureUnavailable
  | invalidKey
  | mpiBadInputData
  | mpiBufferTooSmall
  deriving DecidableEq, Repr

structure EcpPoint where
  X : Int
  Y : Int
  Z : Int
  deriving DecidableEq, Repr

/-- The parameters in an `mbedtls_ecp_group`: `A` is `none` where its limbs are null, which stands
for -3; so are the coordinates of the generator that have no limbs. -/
structure EcpGroup where
  id : EcpGroupId
  P : Nat
  A : Option Nat
  B : Nat
  gX : Option Nat
  gY : Option Nat
  N : Nat
  pbits : Nat
  nbits : Nat
  modp : Option (Int → Int)

def mbedtlsEcpGetType (grp : EcpGroup) : EcpCurveType :=
  match grp.gX, grp.gY with
  | none, _ => .none
  | some _, none => .montgomery
  | some _, some _ => .shortWeierstrass

/-- Where all curves are built. -/
def mbedtlsEcpMaxBits : Nat := 521

def EcpGroup.plen (grp : EcpGroup) : Nat := (grp.P.size + 7) / 8

def mbedtlsEcpSetZero : EcpPoint := { X := 1, Y := 1, Z := 0 }

/-! ## Arithmetic modulo `P` -/

/-- The loops add and subtract `P` until the number is reduced. -/
def ecpModp (grp : EcpGroup) (N : Int) : Except EcpError Int :=
  match grp.modp with
  | none => .ok (N % grp.P)
  | some modp =>
    if N < 0 ∨ N.natAbs.size > 2 * grp.pbits then .error .badInputData
    else .ok (modp N % grp.P)

def mpiMulMod (grp : EcpGroup) (A B : Int) : Except EcpError Int := ecpModp grp (A * B)

def mpiSubMod (grp : EcpGroup) (A B : Int) : Int := if A - B < 0 then (A - B) % grp.P else A - B

/-- `P` is subtracted while the number is not below it. -/
def mpiAddMod (grp : EcpGroup) (A B : Int) : Int := if A + B ≥ grp.P then (A + B) % grp.P else A + B

def mbedtlsMpiExpMod (A : Int) (E N : Nat) : Except EcpError Int :=
  if N % 2 = 0 then .error .mpiBadInputData
  else if E.size > 8192 ∨ N.size > 8192 then .error .mpiBadInputData
  else .ok (A ^ E % N)

def mpiAddA (grp : EcpGroup) (X : Int) : Int :=
  match grp.A with
  | none => mpiSubMod grp X 3
  | some A => mpiAddMod grp X A

def ecpSwRhs (grp : EcpGroup) (X : Int) : Except EcpError Int := do
  let rhs ← mpiMulMod grp X X
  let rhs ← mpiMulMod grp (mpiAddA grp rhs) X
  pure (mpiAddMod grp rhs grp.B)

def ecpCheckPubkeySw (grp : EcpGroup) (pt : EcpPoint) : Except EcpError Unit :=
  if pt.X < 0 ∨ pt.Y < 0 ∨ pt.X ≥ grp.P ∨ pt.Y ≥ grp.P then .error .invalidKey
  else do
    let YY ← mpiMulMod grp pt.Y pt.Y
    let RHS ← ecpSwRhs grp pt.X
    if YY ≠ RHS then .error .invalidKey else pure ()

def ecpX25519BadPoints : List Nat :=
  [ofLE [0xe0, 0xeb, 0x7a, 0x7c, 0x3b, 0x41, 0xb8, 0xae, 0x16, 0x56, 0xe3, 0xfa, 0xf1, 0x9f, 0xc4,
      0x6a, 0xda, 0x09, 0x8d, 0xeb, 0x9c, 0x32, 0xb1, 0xfd, 0x86, 0x62, 0x05, 0x16, 0x5f, 0x49,
      0xb8, 0x00],
    ofLE [0x5f, 0x9c, 0x95, 0xbc, 0xa3, 0x50, 0x8c, 0x24, 0xb1, 0xd0, 0xb1, 0x55, 0x9c, 0x83, 0xef,
      0x5b, 0x04, 0x44, 0x5c, 0xc4, 0x58, 0x1c, 0x8e, 0x86, 0xd8, 0x22, 0x4e, 0xdd, 0xd0, 0x9f,
      0x11, 0x57]]

/-- `P` is subtracted while the number is not below it. -/
def ecpCheckBadPointsMx (X : Int) (P : Nat) (id : EcpGroupId) : Except EcpError Unit :=
  let XmP := if X ≥ P then X % P else X
  if XmP ≤ 1 then .error .invalidKey
  else if id = .curve25519 ∧ XmP ∈ ecpX25519BadPoints.map Int.ofNat then .error .invalidKey
  else if XmP + 1 = P then .error .invalidKey
  else .ok ()

def ecpCheckPubkeyMx (grp : EcpGroup) (pt : EcpPoint) : Except EcpError Unit :=
  if (pt.X.natAbs.size + 7) / 8 > (grp.nbits + 7) / 8 then .error .invalidKey
  else if pt.X < 0 then .error .invalidKey
  else ecpCheckBadPointsMx pt.X grp.P grp.id

def mbedtlsEcpCheckPubkey (grp : EcpGroup) (pt : EcpPoint) : Except EcpError Unit :=
  if pt.Z ≠ 1 then .error .invalidKey
  else
    match mbedtlsEcpGetType grp with
    | .none => .error .badInputData
    | .montgomery => ecpCheckPubkeyMx grp pt
    | .shortWeierstrass => ecpCheckPubkeySw grp pt

/-! ## Short Weierstrass groups -/

/-- What a short Weierstrass group satisfies; `modp` is as `ecp.h` asks of the function. -/
structure ShortWeierstrass (grp : EcpGroup) : Prop where
  type : mbedtlsEcpGetType grp = .shortWeierstrass
  prime : grp.P.Prime
  large : 3 < grp.P
  pbits : grp.pbits = grp.P.size
  maxBits : grp.pbits ≤ mbedtlsEcpMaxBits
  a_lt : ∀ A ∈ grp.A, A < grp.P
  b_lt : grp.B < grp.P
  modp : ∀ f ∈ grp.modp, ∀ x : Nat, x < 2 ^ (2 * grp.pbits) → f x ≡ x [ZMOD grp.P]

/-- The coefficient `A`. -/
def EcpGroup.coefficientA (grp : EcpGroup) : Int :=
  match grp.A with
  | none => -3
  | some A => A

def EcpGroup.rhs (grp : EcpGroup) (x : Int) : Int := x ^ 3 + grp.coefficientA * x + grp.B

structure OnCurve (grp : EcpGroup) (pt : EcpPoint) : Prop where
  x_nonneg : 0 ≤ pt.X
  x_lt : pt.X < grp.P
  y_nonneg : 0 ≤ pt.Y
  y_lt : pt.Y < grp.P
  z : pt.Z = 1
  equation : pt.Y ^ 2 ≡ grp.rhs pt.X [ZMOD grp.P]

theorem EcpGroup.lt_plen (grp : EcpGroup) : grp.P < 256 ^ grp.plen := by
  calc grp.P < 2 ^ grp.P.size := Nat.lt_size_self _
    _ ≤ 2 ^ (8 * grp.plen) := Nat.pow_le_pow_right (by omega) (by unfold EcpGroup.plen; omega)
    _ = 256 ^ grp.plen := by rw [Nat.pow_mul]

theorem mpiSubMod_modEq (grp : EcpGroup) (a b : Int) : mpiSubMod grp a b ≡ a - b [ZMOD grp.P] := by
  unfold mpiSubMod
  split
  · exact Int.mod_modEq _ _
  · rfl

theorem mpiAddMod_modEq (grp : EcpGroup) (a b : Int) : mpiAddMod grp a b ≡ a + b [ZMOD grp.P] := by
  unfold mpiAddMod
  split
  · exact Int.mod_modEq _ _
  · rfl

theorem mpiAddA_modEq (grp : EcpGroup) (x : Int) :
    mpiAddA grp x ≡ x + grp.coefficientA [ZMOD grp.P] := by
  unfold mpiAddA EcpGroup.coefficientA
  split
  · exact mpiSubMod_modEq grp x 3
  · exact mpiAddMod_modEq grp x _

namespace ShortWeierstrass

variable {grp : EcpGroup} (hgrp : ShortWeierstrass grp)

include hgrp

theorem p_pos : (0 : Int) < grp.P := by
  have hlarge := hgrp.large
  omega

theorem plen_le : grp.plen ≤ 66 := by
  have hbits := hgrp.maxBits
  rw [hgrp.pbits, mbedtlsEcpMaxBits] at hbits
  unfold EcpGroup.plen
  omega

theorem ecpModp_eq_ok {x y : Int} (h : ecpModp grp x = .ok y) : y = x % grp.P := by
  unfold ecpModp at h
  split at h
  · cases h
    rfl
  next f hf =>
  split at h
  · cases h
  next hrange =>
  cases h
  obtain ⟨hnonneg, hsize⟩ := not_or.mp hrange
  obtain ⟨n, rfl⟩ := Int.eq_ofNat_of_zero_le (Int.not_lt.mp hnonneg)
  rw [Int.natAbs_natCast, Nat.not_lt, Nat.size_le] at hsize
  exact hgrp.modp f (by rw [hf]; rfl) n hsize

theorem mpiMulMod_eq {a b : Int} (ha : 0 ≤ a) (halt : a < grp.P) (hb : 0 ≤ b)
    (hblt : b < grp.P) : mpiMulMod grp a b = .ok (a * b % grp.P) := by
  unfold mpiMulMod
  rcases hmul : ecpModp grp (a * b) with e | y
  · obtain ⟨m, rfl⟩ := Int.eq_ofNat_of_zero_le ha
    obtain ⟨n, rfl⟩ := Int.eq_ofNat_of_zero_le hb
    unfold ecpModp at hmul
    split at hmul
    · cases hmul
    split at hmul
    · next hrange =>
      have hlt : m * n < 2 ^ (2 * grp.pbits) := by
        have hP : grp.P < 2 ^ grp.pbits := by
          rw [hgrp.pbits]
          exact Nat.lt_size_self _
        calc m * n ≤ grp.P * grp.P := Nat.mul_le_mul (by omega) (by omega)
          _ < 2 ^ grp.pbits * 2 ^ grp.pbits := Nat.mul_self_lt_mul_self hP
          _ = 2 ^ (2 * grp.pbits) := by rw [← Nat.pow_add, Nat.two_mul]
      rcases hrange with hneg | hsize
      · exact absurd hneg (Int.not_lt.mpr (by positivity))
      · rw [← Int.natCast_mul, Int.natAbs_natCast] at hsize
        exact absurd (Nat.size_le.mpr hlt) (Nat.not_le.mpr hsize)
    · cases hmul
  · rw [hgrp.ecpModp_eq_ok hmul]

theorem mpiSubMod_bounds {a b : Int} (ha : a < grp.P) (hb : 0 ≤ b) :
    0 ≤ mpiSubMod grp a b ∧ mpiSubMod grp a b < grp.P := by
  have hpos := hgrp.p_pos
  unfold mpiSubMod
  split
  · exact ⟨Int.emod_nonneg _ hpos.ne', Int.emod_lt_of_pos _ hpos⟩
  · omega

theorem mpiAddMod_bounds {a b : Int} (ha : 0 ≤ a) (hb : 0 ≤ b) :
    0 ≤ mpiAddMod grp a b ∧ mpiAddMod grp a b < grp.P := by
  have hpos := hgrp.p_pos
  unfold mpiAddMod
  split
  · exact ⟨Int.emod_nonneg _ hpos.ne', Int.emod_lt_of_pos _ hpos⟩
  · omega

theorem mpiAddA_bounds {x : Int} (hx : 0 ≤ x) (hxlt : x < grp.P) :
    0 ≤ mpiAddA grp x ∧ mpiAddA grp x < grp.P := by
  unfold mpiAddA
  split
  · exact hgrp.mpiSubMod_bounds hxlt (by omega)
  · exact hgrp.mpiAddMod_bounds hx (by positivity)

theorem emod_bounds (x : Int) : 0 ≤ x % grp.P ∧ x % grp.P < grp.P :=
  ⟨Int.emod_nonneg _ hgrp.p_pos.ne', Int.emod_lt_of_pos _ hgrp.p_pos⟩

theorem ecpSwRhs_eq_ok {x y : Int} (h : ecpSwRhs grp x = .ok y) :
    y ≡ grp.rhs x [ZMOD grp.P] ∧ 0 ≤ y ∧ y < grp.P := by
  unfold ecpSwRhs at h
  rcases hsquare : mpiMulMod grp x x with e | square
  · rw [hsquare] at h
    cases h
  rw [hsquare] at h
  obtain rfl := hgrp.ecpModp_eq_ok hsquare
  simp only [bind, Except.bind] at h
  rcases hproduct : mpiMulMod grp (mpiAddA grp (x * x % grp.P)) x with e | product
  · rw [hproduct] at h
    cases h
  rw [hproduct] at h
  obtain rfl := hgrp.ecpModp_eq_ok hproduct
  cases h
  refine ⟨?_, hgrp.mpiAddMod_bounds (hgrp.emod_bounds _).1 (by positivity)⟩
  have hsum : mpiAddA grp (x * x % grp.P) ≡ x * x + grp.coefficientA [ZMOD grp.P] :=
    (mpiAddA_modEq grp _).trans ((Int.mod_modEq _ _).add_right _)
  calc mpiAddMod grp (mpiAddA grp (x * x % grp.P) * x % grp.P) grp.B
      ≡ mpiAddA grp (x * x % grp.P) * x % grp.P + grp.B [ZMOD grp.P] := mpiAddMod_modEq grp _ _
    _ ≡ mpiAddA grp (x * x % grp.P) * x + grp.B [ZMOD grp.P] := (Int.mod_modEq _ _).add_right _
    _ ≡ (x * x + grp.coefficientA) * x + grp.B [ZMOD grp.P] := (hsum.mul_right x).add_right _
    _ = grp.rhs x := by unfold EcpGroup.rhs; ring

theorem ecpSwRhs_ok {x : Int} (hx : 0 ≤ x) (hxlt : x < grp.P) : ∃ y, ecpSwRhs grp x = .ok y := by
  obtain ⟨hsquare, hsquareLt⟩ := hgrp.emod_bounds (x * x)
  obtain ⟨hsum, hsumLt⟩ := hgrp.mpiAddA_bounds hsquare hsquareLt
  unfold ecpSwRhs
  rw [hgrp.mpiMulMod_eq hx hxlt hx hxlt]
  simp only [bind, Except.bind]
  rw [hgrp.mpiMulMod_eq hsum hsumLt hx hxlt]
  exact ⟨_, rfl⟩

theorem ecpCheckPubkeySw_eq_ok {pt : EcpPoint} (hz : pt.Z = 1) :
    ecpCheckPubkeySw grp pt = .ok () ↔ OnCurve grp pt := by
  unfold ecpCheckPubkeySw
  split
  · next hrange =>
    constructor
    · rintro ⟨⟩
    intro h
    have h₁ := h.x_nonneg
    have h₂ := h.x_lt
    have h₃ := h.y_nonneg
    have h₄ := h.y_lt
    omega
  · next hrange =>
    obtain ⟨hx, hrange⟩ := not_or.mp hrange
    obtain ⟨hy, hrange⟩ := not_or.mp hrange
    obtain ⟨hxlt, hylt⟩ := not_or.mp hrange
    obtain ⟨rhs, hrhs⟩ := hgrp.ecpSwRhs_ok (Int.not_lt.mp hx) (Int.not_le.mp hxlt)
    obtain ⟨hmod, hnonneg, hlt⟩ := hgrp.ecpSwRhs_eq_ok hrhs
    rw [hgrp.mpiMulMod_eq (Int.not_lt.mp hy) (Int.not_le.mp hylt) (Int.not_lt.mp hy)
      (Int.not_le.mp hylt), hrhs]
    simp only [bind, Except.bind]
    have hequation : pt.Y * pt.Y % grp.P = rhs ↔ pt.Y ^ 2 ≡ grp.rhs pt.X [ZMOD grp.P] := by
      rw [← Int.emod_eq_of_lt hnonneg hlt, ← pow_two]
      constructor
      · intro h
        exact Int.ModEq.trans h hmod
      · intro h
        exact h.trans hmod.symm
    by_cases heq : pt.Y * pt.Y % grp.P = rhs
    · rw [if_neg (not_not.mpr heq)]
      constructor
      · intro _
        exact ⟨Int.not_lt.mp hx, Int.not_le.mp hxlt, Int.not_lt.mp hy, Int.not_le.mp hylt, hz,
          hequation.mp heq⟩
      · intro _
        rfl
    · rw [if_pos heq]
      constructor
      · rintro ⟨⟩
      · intro h
        exact absurd (hequation.mpr h.equation) heq

theorem mbedtlsEcpCheckPubkey_eq_ok {pt : EcpPoint} :
    mbedtlsEcpCheckPubkey grp pt = .ok () ↔ OnCurve grp pt := by
  unfold mbedtlsEcpCheckPubkey
  rw [hgrp.type]
  split
  · next hz =>
    constructor
    · rintro ⟨⟩
    · intro h
      exact absurd h.z hz
  · next hz => exact hgrp.ecpCheckPubkeySw_eq_ok (not_not.mp hz)

end ShortWeierstrass

def smallGroup : EcpGroup :=
  { id := .none, P := 11, A := none, B := 1, gX := some 2, gY := some 5, N := 17, pbits := 4,
    nbits := 5, modp := none }

theorem smallGroup_shortWeierstrass : ShortWeierstrass smallGroup where
  type := rfl
  prime := by norm_num [smallGroup]
  large := by decide
  pbits := by decide
  maxBits := by decide
  a_lt := nofun
  b_lt := by decide
  modp := nofun

end TfPsaCrypto.Ecp
