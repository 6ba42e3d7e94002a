import TfPsaCrypto.Builtin.EcpPrivateKey
import TfPsaCrypto.Builtin.HmacDrbgRefines
import TfPsaCrypto.Library.Rfc6979

/-!
# Deterministic ECDSA

`mbedtls_ecdsa_sign_det_restartable` without a restart context. A signature keeps the ephemeral
scalars that it obtained, also where it fails.
-/

namespace TfPsaCrypto.DetEcdsa

open Bytes HmacDrbg Rfc6979
open Drbg (HmacState hmacUpdate hmacBlocks blockCount)
open Ecp (EcpError GenError Rng mbedtlsEcpGenPrivkeySw mbedtlsMpiRandom mpiCoreRandomLoop)

/-! ## Signatures -/

/-- A group for ECDSA: its order, and the x coordinate of a multiple of the base point, which
`mbedtls_ecp_mul` computes with blinding from a generator in a state of type `β`. -/
structure Group (β : Type) where
  N : Nat
  xMul : Nat → Nat
  ecpMul : Nat → β → Except EcpError (Nat × β)
  ecpMul_eq : ∀ {k b X b'}, ecpMul k b = .ok (X, b') → X = xMul k

variable {σ ε β : Type}

variable (md : Md) (sizeMod : Nat) (fEntropy : Drbg.Source Unit)

/-- The error `none` is a call through a null pointer. -/
def hmacDrbgRandom : Rng (Context Unit) (Option HmacDrbg.Error) where
  draw ctx n :=
    match hmacDrbgRandomWithAdd md sizeMod fEntropy ctx n none with
    | none => .error none
    | some (ctx, r) =>
      match r.ret with
      | .error e => .error (some e)
      | .ok () => .ok (r.output, ctx)
  length_draw := by
    intro ctx ctx' n bytes h
    rcases hrandom : hmacDrbgRandomWithAdd md sizeMod fEntropy ctx n none with _ | ⟨ctx₁, r⟩
    · rw [hrandom] at h
      cases h
    rw [hrandom] at h
    dsimp only at h
    rcases hret : r.ret with e | u
    · rw [hret] at h
      cases h
    rw [hret] at h
    cases h
    exact (@drbgMachine_output _ md sizeMod fEntropy ctx (.randomWithAdd n none) _ r hrandom).2 n
      none rfl hret

def signature (grp : Group β) (d : Nat) (buf : ByteString) (k : Nat) : Nat × Nat :=
  let r := grp.xMul k % grp.N
  (r, (Int.gcdA k grp.N % grp.N).toNat * (bits2int grp.N buf + r * d) % grp.N)

def Rejected (grp : Group β) (d : Nat) (buf : ByteString) (k : Nat) : Prop :=
  (signature grp d buf k).1 = 0 ∨ (signature grp d buf k).2 = 0

/-- A generator without an entropy source in the state `s`. -/
structure At (ctx : Context Unit) (s : HmacState) : Prop where
  working : ctx.working = s
  pEntropy : ctx.pEntropy = none

variable {md sizeMod fEntropy} {ctx ctx' : Context Unit} {s : HmacState}

theorem At.draw (h : At ctx s) {q : Nat} {bytes : ByteString}
    (hdraw : (hmacDrbgRandom md sizeMod fEntropy).draw ctx (octets q) = .ok (bytes, ctx')) :
    ofBE bytes >>> (8 * octets q - q.size) = bits2int q (generateT md.hmac md.size q s) ∧
      At ctx' (next md.hmac md.size q s) := by
  have hrandom : hmacDrbgRandomWithAdd md sizeMod fEntropy ctx (octets q) none =
      if octets q > maxRequest then some (ctx, ⟨.error .requestTooBig, [], false⟩)
      else some (randomTail md ctx (octets q) none false) := by
    unfold hmacDrbgRandomWithAdd
    split
    · rfl
    · rw [if_neg (show ¬ ((none : Option ByteString).getD []).length > maxInput by decide),
        if_neg (by simp [h.pEntropy])]
  have hout : bytes = (generateBytes md ctx (octets q)).2 ∧
      ctx' = (randomTail md ctx (octets q) none false).1 := by
    unfold hmacDrbgRandom at hdraw
    dsimp only at hdraw
    rw [hrandom] at hdraw
    split at hdraw
    · cases hdraw
    next hsome =>
    split at hsome
    · cases hsome
      cases hdraw
    · cases hsome
      cases hdraw
      exact ⟨rfl, rfl⟩
  have hkey : ctx.mdCtx.key = s.K := congrArg HmacState.K h.working
  have hv : ctx.v = s.V := congrArg HmacState.V h.working
  obtain ⟨hgen, hbytes⟩ := @generateBytes_eq _ md (octets q) ctx
  rw [hkey, hv, rounds_eq md.size_pos] at hgen hbytes
  rw [hout.1, hout.2]
  constructor
  · have hlong : octets q ≤ (generateT md.hmac md.size q s).length := by
      unfold generateT
      rw [← rounds_eq md.size_pos, Drbg.length_hmacBlocks (md.length_hmac s.K)]
      exact Drbg.le_mul_blockCount md.size_pos _
    rw [hbytes, ← bits2int_take hlong]
    unfold bits2int
    rw [List.length_take, Nat.min_eq_left hlong]
    rfl
  · have hupdate := @hmacDrbgUpdate_toInstance _ md (generateBytes md ctx (octets q)).1 none
    have hworking : (generateBytes md ctx (octets q)).1.working = _ :=
      congrArg Drbg.Instance.working hgen
    constructor
    · refine (congrArg Drbg.Instance.working hupdate).trans ?_
      rw [hworking]
      unfold hmacUpdate next
      simp [withWorking]
    · refine (congrArg Drbg.Instance.source hupdate).trans ?_
      exact (congrArg Drbg.Instance.source hgen).trans h.pEntropy

section Loops

variable {grp : Group β} {d : Nat} {buf : ByteString} {b : β} {i : Nat}

end Loops

/-! ## The signature -/

end TfPsaCrypto.DetEcdsa
