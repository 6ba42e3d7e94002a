import TfPsaCrypto.Builtin.BignumMontgomery
import TfPsaCrypto.Library.Bytes
import TfPsaCrypto.Library.Fallible
import TfPsaCrypto.Library.Rsa

/-!
# RSA operations

`mbedtls_rsa_public` and `mbedtls_rsa_private` of `rsa.c`. A bignum is its integer. Whatever
allocates or draws may fail; the blinding values stay in the context between calls.
-/

namespace TfPsaCrypto.RsaPrivate

open Bytes Fallible

/-! ## Data -/

inductive Build where
  | crt
  | noCrt
  deriving DecidableEq, Repr

/-- The key in an `mbedtls_rsa_context`; `limbs` is `N->n`. -/
structure RsaKey where
  N : Nat
  E : Nat
  D : Nat
  P : Nat
  Q : Nat
  DP : Nat
  DQ : Nat
  QP : Nat
  limbs : Nat

def RsaKey.len (key : RsaKey) : Nat := (key.N.size + 7) / 8

def mbedtlsMpiMaxSize : Nat := 1024

def mbedtlsMpiMaxBits : Nat := 8 * mbedtlsMpiMaxSize

def biL : Nat := 64

def rsaExponentBlinding : Nat := 28

inductive CrtStep where
  | sub
  | mulQP
  | modP
  | mulQ
  | addTQ
  deriving DecidableEq, Repr

inductive RsaPoint where
  | readInput
  | mulVi
  | modVi
  | mulVf
  | modVf
  | sizeA
  | drawA
  | invertA
  | sizeAp
  | drawAp
  | invertAp
  | sizeAq
  | drawAq
  | invertAq
  | crtVf (step : CrtStep)
  | crtVi (step : CrtStep)
  | expVi
  | mulT
  | modT
  | copyT
  | subP
  | subQ
  | fillR
  | mulP1Q1
  | mulR
  | addD
  | mulP1
  | addDP
  | fillR2
  | mulQ1
  | addDQ
  | expT
  | expTP
  | expTQ
  | crtT (step : CrtStep)
  | expCheck
  | montRR
  | growMT
  | growT
  | growVf
  deriving DecidableEq, Repr

inductive RsaFailure where
  | badInputData
  | mpiBadInputData
  | rngFailed
  | verifyFailed
  | bufferTooSmall
  | operation (point : RsaPoint)
  deriving DecidableEq, Repr

/-- `ctx->Vf`, `none` while it has no limbs, and `ctx->Vi`. -/
structure Blinding where
  vf : Option Int
  vi : Int
  deriving DecidableEq, Repr

def Blinding.init : Blinding := { vf := none, vi := 0 }

/-- What the generator gives in a call: numbers in the ranges that `mbedtls_mpi_random` and
`mbedtls_mpi_fill_random` ask for. -/
structure RsaDraws (key : RsaKey) where
  a : Nat
  ap : Nat
  aq : Nat
  r : Nat
  r₂ : Nat
  a_range : 1 ≤ a ∧ a < key.N
  ap_range : 1 ≤ ap ∧ ap < key.P
  aq_range : 1 ≤ aq ∧ aq < key.Q
  r_range : r < 256 ^ rsaExponentBlinding
  r₂_range : r₂ < 256 ^ rsaExponentBlinding

/-- A call of `mbedtls_rsa_private`: the input, the operation that fails first, and the generator's
answers. A generator that fails leaves `residue`; `truncated` is for a reduction that fails with a
negative remainder stored. -/
structure RsaCall (key : RsaKey) where
  input : ByteString
  fault : Option RsaPoint
  residue : Int
  truncated : Bool
  draws : RsaDraws key

abbrev RsaProg (α : Type) := Fallible Blinding RsaFailure α

def rsaCheckContext (build : Build) (key : RsaKey) (isPriv : Bool) : Bool :=
  key.len ≤ mbedtlsMpiMaxSize &&
  0 < key.N && key.N % 2 = 1 &&
  0 < key.E &&
  (!isPriv || match build with
    | .crt => 0 < key.P && key.P % 2 = 1 && 0 < key.Q && key.Q % 2 = 1 &&
        0 < key.DP && 0 < key.DQ && 0 < key.QP
    | .noCrt => 0 < key.D && 0 < key.P && 0 < key.Q)

/-- `mbedtls_mpi_bitlen` of the exponent and of the modulus are limited. -/
def expModFits (e n : Nat) : Bool := e.size ≤ mbedtlsMpiMaxBits && n.size ≤ mbedtlsMpiMaxBits

/-! ## The public operation -/

/-- Where no operation fails. -/
def mbedtlsRsaPublic (build : Build) (key : RsaKey) (input : ByteString) :
    Except RsaFailure ByteString :=
  if rsaCheckContext build key false = false then .error .badInputData
  else
    let T := ofBE (input.take key.len)
    if T ≥ key.N then .error .mpiBadInputData
    else if expModFits key.E key.N = false then .error .mpiBadInputData
    else .ok (toBE key.len (T ^ key.E % key.N))

/-! ## Operations -/

section Model

variable {key : RsaKey} (c : RsaCall key)

def operation (point : RsaPoint) : RsaProg Unit :=
  if c.fault = some point then fail (.operation point) else pure ()

/-- `mbedtls_mpi_mod_mpi(X, X, n)` for an `X` that `store` writes. -/
def mbedtlsMpiModMpi (point : RsaPoint) (store : Int → RsaProg Unit) (x : Int) (n : Nat) :
    RsaProg Int := do
  if c.fault = some point then
    store (if c.truncated ∧ x < 0 then x.tmod n else x)
    fail (.operation point)
  else
    store (x % n)
    pure (x % n)

def mbedtlsMpiExpMod (point : RsaPoint) (a : Int) (e n : Nat) : RsaProg Int := do
  if expModFits e n = false then fail .mpiBadInputData
  else
    operation c point
    pure (a ^ e % n)

def modInverse (a n : Nat) : Nat := ((List.range n).find? fun x => a * x % n = 1).getD 0

def setVf (x : Int) : RsaProg Unit := update fun s => { s with vf := some x }

def setVi (x : Int) : RsaProg Unit := update fun s => { s with vi := x }

def setLocal (_ : Int) : RsaProg Unit := pure ()

def rsaApplyCrt (point : CrtStep → RsaPoint) (store : Int → RsaProg Unit) (TP TQ : Int) :
    RsaProg Int := do
  operation c (point .sub)
  store (TP - TQ)
  operation c (point .mulQP)
  store ((TP - TQ) * key.QP)
  let T ← mbedtlsMpiModMpi c (point .modP) store ((TP - TQ) * key.QP) key.P
  operation c (point .mulQ)
  store (T * key.Q)
  operation c (point .addTQ)
  store (T * key.Q + TQ)
  pure (T * key.Q + TQ)

/-! ## Blinding -/

/-- `rsa_gen_rand_with_inverse` with `MBEDTLS_RSA_NO_CRT`. -/
def rsaGenRandWithInverseNoCrt : RsaProg Unit := do
  operation c .sizeA
  setVf 0
  if c.fault = some .drawA then
    setVf c.residue
    fail (.operation .drawA)
  else
    setVf c.draws.a
    operation c .invertA
    setVi (modInverse c.draws.a key.N)
    if Nat.gcd c.draws.a key.N ≠ 1 then fail .rngFailed else pure ()

/-- `rsa_gen_rand_with_inverse` without it. -/
def rsaGenRandWithInverseCrt : RsaProg Unit := do
  -- generate Ap in [1, P) and compute Bp = Ap^-1 mod P
  operation c .sizeAp
  operation c .drawAp
  operation c .invertAp
  if Nat.gcd c.draws.ap key.P ≠ 1 then fail .rngFailed
  else
    operation c .sizeAq
    operation c .drawAq
    operation c .invertAq
    if Nat.gcd c.draws.aq key.Q ≠ 1 then fail .rngFailed
    else
      -- reconstruct A and B
      let _ ← rsaApplyCrt c .crtVf setVf c.draws.ap c.draws.aq
      let _ ← rsaApplyCrt c .crtVi setVi (modInverse c.draws.ap key.P) (modInverse c.draws.aq key.Q)
      pure ()

def rsaSquareBlinding (vf : Int) : RsaProg Unit := do
  let s ← read
  operation c .mulVi
  setVi (s.vi * s.vi)
  let _ ← mbedtlsMpiModMpi c .modVi setVi (s.vi * s.vi) key.N
  operation c .mulVf
  setVf (vf * vf)
  let _ ← mbedtlsMpiModMpi c .modVf setVf (vf * vf) key.N
  pure ()

def rsaPrepareBlinding (build : Build) : RsaProg Unit := do
  let s ← read
  match s.vf with
  | some vf => rsaSquareBlinding c vf
  | none =>
    match build with
    | .crt => rsaGenRandWithInverseCrt c
    | .noCrt => rsaGenRandWithInverseNoCrt c
    let s ← read
    let vi ← mbedtlsMpiExpMod c .expVi s.vi key.E key.N
    setVi vi

/-- One operand is converted, so the product is the plain one; as many limbs as the modulus. -/
def rsaUnblind (T : Int) (vf : Int) : RsaProg Nat := do
  let mm := mbedtlsMpiCoreMontmulInit (BitVec.ofNat biL key.N)
  operation c .montRR
  let RR := mbedtlsMpiCoreGetMontR2Unsafe biL key.limbs key.N
  operation c .growMT
  operation c .growT
  operation c .growVf
  let T := mbedtlsMpiCoreToMontRep biL key.limbs (T.natAbs % 2 ^ (biL * key.limbs)) key.N mm RR
  pure (mbedtlsMpiCoreMontmul biL key.limbs T (vf.natAbs % 2 ^ (biL * key.limbs)) key.N mm)

/-! ## The private operation -/

def rsaBlindedPower (build : Build) (T : Int) : RsaProg Int := do
  operation c .subP
  let P1 := key.P - 1
  operation c .subQ
  let Q1 := key.Q - 1
  match build with
  | .noCrt =>
    -- D_blind = ( P - 1 ) * ( Q - 1 ) * R + D
    operation c .fillR
    operation c .mulP1Q1
    operation c .mulR
    operation c .addD
    mbedtlsMpiExpMod c .expT T (P1 * Q1 * c.draws.r + key.D) key.N
  | .crt =>
    -- DP_blind = ( P - 1 ) * R + DP
    operation c .fillR
    operation c .mulP1
    operation c .addDP
    -- DQ_blind = ( Q - 1 ) * R + DQ
    operation c .fillR2
    operation c .mulQ1
    operation c .addDQ
    let TP ← mbedtlsMpiExpMod c .expTP T (P1 * c.draws.r + key.DP) key.P
    let TQ ← mbedtlsMpiExpMod c .expTQ T (Q1 * c.draws.r₂ + key.DQ) key.Q
    rsaApplyCrt c .crtT setLocal TP TQ

/-- What `mbedtls_rsa_private` does with the number that it has read. -/
def rsaPrivateNumber (build : Build) (T : Nat) : RsaProg ByteString := do
  rsaPrepareBlinding c build
  let s ← read
  operation c .mulT
  let inputBlinded ← mbedtlsMpiModMpi c .modT setLocal (T * s.vi) key.N
  operation c .copyT
  let T ← rsaBlindedPower c build inputBlinded
  -- verify the result to prevent glitching attacks
  let checkResultBlinded ← mbedtlsMpiExpMod c .expCheck T key.E key.N
  if checkResultBlinded ≠ inputBlinded then fail .verifyFailed
  else
    let T ← rsaUnblind c T (s.vf.getD 0)
    if 256 ^ key.len ≤ T then fail .bufferTooSmall else pure (toBE key.len T)

def mbedtlsRsaPrivate (build : Build) : RsaProg ByteString := do
  if rsaCheckContext build key true = false then fail .badInputData
  else
    operation c .readInput
    let T := ofBE (c.input.take key.len)
    if T ≥ key.N then fail .mpiBadInputData
    else rsaPrivateNumber c build T

end Model

end TfPsaCrypto.RsaPrivate
