import TfPsaCrypto.Builtin.RsaImport

/-!
# The CRT numbers of a key

When `mbedtls_rsa_deduce_crt` succeeds, and that its results depend on the values only.
-/

namespace TfPsaCrypto.RsaDer

open Bytes Der
open RsaPrivate (Build)

variable {w : Nat}

/-! ## Operations that succeed -/

section Operations

variable {X A B : MpiNum}

end Operations

/-! ## Keys -/

variable {ctx : MbedtlsRsaContext w}

theorem KeyFacts.limbCount_le (hw : w = 32 ∨ w = 64) (h : KeyFacts ctx) {v : Int} (hpos : 0 ≤ v)
    (hle : v ≤ ctx.N.toInt) :
    limbCount w v ≤ rsaLimbs := by
  apply limbCount_of_size hw
  have hN := h.N.toInt
  exact Nat.le_trans (Nat.size_le_size (by omega)) h.size

theorem Deducible.unique {d p q dLimbs pLimbs qLimbs inverse : Nat}
    {dLimbs' pLimbs' qLimbs' inverse' : Nat}
    (h : Deducible d p q dLimbs pLimbs qLimbs inverse)
    (h' : Deducible d p q dLimbs' pLimbs' qLimbs' inverse') : inverse = inverse' := by
  have hmod : q * inverse ≡ q * inverse' [MOD p] := h.mul_inverse.trans h'.mul_inverse.symm
  have hcoprime : p.gcd q = 1 := by
    have hp : 1 < p := by
      by_contra hsmall
      have hone := h.mul_inverse
      have hlt := h.lt
      obtain rfl : p = 1 := by omega
      rw [Nat.mod_one] at hone
      exact absurd hone (by decide)
    have hone : q * inverse ≡ 1 [MOD p] := h.mul_inverse.trans (Nat.mod_eq_of_lt hp).symm
    exact (Nat.coprime_of_mul_modEq_one inverse hone).symm
  have hcancel := Nat.ModEq.cancel_left_of_coprime hcoprime hmod
  rwa [Nat.ModEq, Nat.mod_eq_of_lt h.lt, Nat.mod_eq_of_lt h'.lt] at hcancel

end TfPsaCrypto.RsaDer
