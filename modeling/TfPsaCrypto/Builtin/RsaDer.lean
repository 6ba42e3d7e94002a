import TfPsaCrypto.Builtin.BignumArithmetic
import TfPsaCrypto.Builtin.RsaPrivate
import TfPsaCrypto.Utilities.Asn1Parse

/-!
# RSA keys in DER

The checks of an RSA key, and the functions that parse and write one. With `MBEDTLS_RSA_NO_CRT`
the CRT parameters are left as they were.
-/

namespace TfPsaCrypto.RsaDer

open Bytes
open RsaPrivate (Build mbedtlsMpiMaxSize)

variable {w : Nat}

/-! ## Data -/

structure MbedtlsRsaContext (w : Nat) where
  len : Nat
  N : MbedtlsMpi w
  E : MbedtlsMpi w
  D : MbedtlsMpi w
  P : MbedtlsMpi w
  Q : MbedtlsMpi w
  DP : MbedtlsMpi w
  DQ : MbedtlsMpi w
  QP : MbedtlsMpi w

/-- `MBEDTLS_ERR_RSA_*`, the errors of other modules, and `PSA_ERROR_NOT_SUPPORTED`; the second
is added to an error of `bignum.c`. -/
inductive RsaError where
  | badInputData
  | keyCheckFailed
  | keyCheckMpi (e : MpiError)
  | asn1 (e : Asn1Error)
  | notSupported
  deriving DecidableEq, Repr

structure RsaParsed (w : Nat) where
  ret : Option RsaError
  rsa : MbedtlsRsaContext w

def psaVendorRsaMaxKeyBits : Nat := 4096

def asn1ConstructedSequence : UInt8 := 0x30

namespace MbedtlsRsaContext

def init : MbedtlsRsaContext w :=
  { len := 0, N := .init, E := .init, D := .init, P := .init, Q := .init, DP := .init,
    DQ := .init, QP := .init }

def free (ctx : MbedtlsRsaContext w) : MbedtlsRsaContext w := { init with len := ctx.len }

end MbedtlsRsaContext

/-! ## Checks -/

def mpiBit0 (X : MbedtlsMpi w) : Bool := X.abs.testBit 0

def rsaCheckContext (build : Build) (ctx : MbedtlsRsaContext w) (isPriv blindingNeeded : Bool) :
    Bool :=
  ctx.len = mbedtlsMpiSize ctx.N && ctx.len ≤ mbedtlsMpiMaxSize &&
  0 < ctx.N.toInt && mpiBit0 ctx.N &&
  (build = .noCrt || !isPriv ||
    0 < ctx.P.toInt && mpiBit0 ctx.P && 0 < ctx.Q.toInt && mpiBit0 ctx.Q) &&
  0 < ctx.E.toInt &&
  (!isPriv || match build with
    | .noCrt => 0 < ctx.D.toInt
    | .crt => 0 < ctx.DP.toInt && 0 < ctx.DQ.toInt) &&
  (build = .crt || !isPriv || !blindingNeeded || 0 < ctx.P.toInt && 0 < ctx.Q.toInt) &&
  (build = .noCrt || !isPriv || 0 < ctx.QP.toInt)

def mbedtlsRsaCheckPubkey (build : Build) (ctx : MbedtlsRsaContext w) : Except RsaError Unit :=
  if rsaCheckContext build ctx false false = false then .error .keyCheckFailed
  else if mbedtlsMpiBitlen ctx.N < 128 then .error .keyCheckFailed
  else if mpiBit0 ctx.E = false ∨ mbedtlsMpiBitlen ctx.E < 2 ∨ ctx.E.toInt ≥ ctx.N.toInt then
    .error .keyCheckFailed
  else .ok ()

/-- `MBEDTLS_MPI_CHK` in a function that adds its own error to those of `bignum.c`. -/
def mpiChk (r : Except MpiError MpiNum) : Except RsaError MpiNum := r.mapError .keyCheckMpi

/-- A condition under which `MBEDTLS_ERR_RSA_KEY_CHECK_FAILED` is not returned. -/
def rsaCheck (p : Prop) [Decidable p] : Except RsaError Unit :=
  if p then .ok () else .error .keyCheckFailed

/-- `D * E - 1` is divided by `P - 1`, into `K`, with `L` for the divisor. -/
def rsaCheckInverse (w : Nat) (K L P D E : MpiNum) : Except RsaError (MpiNum × MpiNum) := do
  let K ← mpiChk (mbedtlsMpiMulMpi w K D E)
  let K ← mpiChk (mbedtlsMpiSubInt w K K)
  let L ← mpiChk (mbedtlsMpiSubInt w L P)
  let K ← mpiChk (mbedtlsMpiModMpi w K K L)
  rsaCheck (K.val = 0)
  return (K, L)

/-- For a null `f_rng`. -/
def mbedtlsRsaValidateParams (w : Nat) (N P Q D E : MpiNum) : Except RsaError Unit := do
  let K ← mpiChk (mbedtlsMpiMulMpi w .init P Q)
  rsaCheck (¬ N.val ≤ 1 ∧ K.val = N.val)
  rsaCheck (¬ D.val ≤ 1 ∧ ¬ E.val ≤ 1 ∧ ¬ D.val ≥ N.val ∧ ¬ E.val ≥ N.val)
  rsaCheck (¬ P.val ≤ 1 ∧ ¬ Q.val ≤ 1)
  let (K, L) ← rsaCheckInverse w K .init P D E
  let _ ← rsaCheckInverse w K L Q D E
  return ()

/-- `DP - D` is divided by `P - 1`, into `L`, with `K` for the divisor. -/
def rsaCheckExponent (w : Nat) (K L P D DP : MpiNum) : Except RsaError (MpiNum × MpiNum) := do
  let K ← mpiChk (mbedtlsMpiSubInt w K P)
  let L ← mpiChk (mbedtlsMpiSubMpi w L DP D)
  let L ← mpiChk (mbedtlsMpiModMpi w L L K)
  rsaCheck (L.val = 0)
  return (K, L)

def mbedtlsRsaValidateCrt (w : Nat) (P Q D DP DQ QP : MpiNum) : Except RsaError Unit := do
  let (K, L) ← rsaCheckExponent w .init .init P D DP
  let (K, _) ← rsaCheckExponent w K L Q D DQ
  let K ← mpiChk (mbedtlsMpiMulMpi w K QP Q)
  let K ← mpiChk (mbedtlsMpiSubInt w K K)
  let K ← mpiChk (mbedtlsMpiModMpi w K K P)
  rsaCheck (K.val = 0)

def mbedtlsRsaCheckPrivkey (build : Build) (ctx : MbedtlsRsaContext w) : Except RsaError Unit :=
  if mbedtlsRsaCheckPubkey build ctx ≠ .ok () ∨ rsaCheckContext build ctx true true = false then
    .error .keyCheckFailed
  else if mbedtlsRsaValidateParams w ctx.N.num ctx.P.num ctx.Q.num ctx.D.num ctx.E.num ≠ .ok ()
    then .error .keyCheckFailed
  else if build = .crt ∧ mbedtlsRsaValidateCrt w ctx.P.num ctx.Q.num ctx.D.num ctx.DP.num
      ctx.DQ.num ctx.QP.num ≠ .ok () then .error .keyCheckFailed
  else .ok ()

/-! ## Parsing -/

def cleanup (rsa : MbedtlsRsaContext w) (e : RsaError) : RsaParsed w :=
  { ret := some e, rsa := rsa.free }

def asn1GetNonzeroMpi (isBigEndian : Bool) (input : ByteString) (X : MbedtlsMpi w) :
    Except RsaError ByteString × MbedtlsMpi w :=
  match mbedtlsAsn1GetMpi isBigEndian input X with
  | (.error e, X) => (.error (.asn1 e), X)
  | (.ok input, X) => if X.toInt = 0 then (.error .badInputData, X) else (.ok input, X)

def importMpi (isBigEndian : Bool) (rsa : MbedtlsRsaContext w) (input : ByteString)
    (X : MbedtlsMpi w) (k : ByteString → MbedtlsMpi w → RsaParsed w) : RsaParsed w :=
  match asn1GetNonzeroMpi isBigEndian input X with
  | (.error e, _) => cleanup rsa e
  | (.ok input, X) => k input X

def importCrt (build : Build) (isBigEndian : Bool) (rsa : MbedtlsRsaContext w)
    (input : ByteString) (k : ByteString → MbedtlsRsaContext w → RsaParsed w) : RsaParsed w :=
  match build with
  | .crt =>
    importMpi isBigEndian rsa input rsa.DP fun input DP =>
    let rsa := { rsa with DP := DP }
    importMpi isBigEndian rsa input rsa.DQ fun input DQ =>
    let rsa := { rsa with DQ := DQ }
    importMpi isBigEndian rsa input rsa.QP fun input QP =>
      k input { rsa with QP := QP }
  | .noCrt =>
    importMpi isBigEndian rsa input .init fun input T =>
    importMpi isBigEndian rsa input T fun input T =>
    importMpi isBigEndian rsa input T fun input _ =>
      k input rsa

/-- The end of `mbedtls_rsa_parse_key`: the checks of the numbers, and that nothing is left. -/
def parseKeyEnd (build : Build) (input : ByteString) (rsa : MbedtlsRsaContext w) : RsaParsed w :=
  if rsa.len * 8 > psaVendorRsaMaxKeyBits then
    cleanup rsa .notSupported
  else
    match mbedtlsRsaCheckPrivkey build rsa with
    | .error e => cleanup rsa e
    | .ok () =>
      if input ≠ [] then cleanup rsa (.asn1 .lengthMismatch)
      else { ret := none, rsa := rsa }

/-- The fields of an `RSAPrivateKey` after the version. -/
def parseKeyFields (build : Build) (isBigEndian : Bool) (rsa : MbedtlsRsaContext w)
    (input : ByteString) : RsaParsed w :=
  importMpi isBigEndian rsa input rsa.N fun input N =>
  let rsa := { rsa with len := mbedtlsMpiSize N, N := N }
  importMpi isBigEndian rsa input rsa.E fun input E =>
  let rsa := { rsa with E := E }
  importMpi isBigEndian rsa input rsa.D fun input D =>
  let rsa := { rsa with D := D }
  importMpi isBigEndian rsa input rsa.P fun input P =>
  let rsa := { rsa with P := P }
  importMpi isBigEndian rsa input rsa.Q fun input Q =>
  let rsa := { rsa with Q := Q }
  importCrt build isBigEndian rsa input (parseKeyEnd build)

/-- The first errors are returned without the cleanup. -/
def mbedtlsRsaParseKey (build : Build) (isBigEndian : Bool) (rsa : MbedtlsRsaContext w)
    (key : ByteString) : RsaParsed w :=
  match mbedtlsAsn1GetTag key asn1ConstructedSequence with
  | .error e => { ret := some (.asn1 e), rsa := rsa }
  | .ok (len, input) =>
    if input.length ≠ len then { ret := some .badInputData, rsa := rsa }
    else
      match mbedtlsAsn1GetInt input with
      | .error e => { ret := some (.asn1 e), rsa := rsa }
      | .ok (version, input) =>
        if version ≠ 0 then { ret := some .badInputData, rsa := rsa }
        else parseKeyFields build isBigEndian rsa input

def exitPubkey (rsa : MbedtlsRsaContext w) (e : RsaError) : RsaParsed w :=
  { ret := some e, rsa := { rsa with N := .init, E := .init } }

def importPubkeyMpi (isBigEndian : Bool) (rsa : MbedtlsRsaContext w) (input : ByteString)
    (X : MbedtlsMpi w) (k : ByteString → MbedtlsMpi w → RsaParsed w) : RsaParsed w :=
  match mbedtlsAsn1GetTag input mbedtlsAsn1Integer with
  | .error e => exitPubkey rsa (.asn1 e)
  | .ok (len, input) =>
    let r := mbedtlsMpiReadBinary isBigEndian X (input.take len)
    if r.ret ≠ none then exitPubkey rsa .badInputData
    else k (input.drop len) r.X

def mbedtlsRsaParsePubkey (build : Build) (isBigEndian : Bool) (rsa : MbedtlsRsaContext w)
    (key : ByteString) : RsaParsed w :=
  match mbedtlsAsn1GetTag key asn1ConstructedSequence with
  | .error e => exitPubkey rsa (.asn1 e)
  | .ok (len, input) =>
    if input.length ≠ len then exitPubkey rsa .badInputData
    else
      importPubkeyMpi isBigEndian rsa input .init fun input N =>
        let rsa := { rsa with len := mbedtlsMpiSize N, N := N }
        importPubkeyMpi isBigEndian rsa input .init fun input E =>
          let rsa := { rsa with E := E }
          if mbedtlsRsaCheckPubkey build rsa ≠ .ok () then exitPubkey rsa .badInputData
          else if input ≠ [] then exitPubkey rsa (.asn1 .lengthMismatch)
          else { ret := none, rsa := rsa }

/-! ## Writing -/

def mbedtlsRsaDeduceCrt (w : Nat) (P Q D : MpiNum) :
    Except MpiError (MpiNum × MpiNum × MpiNum) := do
  let K ← mbedtlsMpiSubInt w .init P
  let DP ← mbedtlsMpiModMpi w .init D K
  let K ← mbedtlsMpiSubInt w K Q
  let DQ ← mbedtlsMpiModMpi w .init D K
  let QP ← mbedtlsMpiInvModOdd w .init Q P
  return (DP, DQ, QP)

/-- `MBEDTLS_RSA_WRITE_MPI`, of one number after the other. -/
def writeMpis : List (MbedtlsMpi w) → Nat → Asn1Writer → (Nat → Asn1Writer → Asn1Written) →
    Asn1Written
  | [], len, p, k => k len p
  | X :: Xs, len, p, k =>
    (mbedtlsAsn1WriteMpi p X).chkAdd len fun len p => writeMpis Xs len p k

def writeSequence (len : Nat) (p : Asn1Writer) : Asn1Written :=
  (mbedtlsAsn1WriteLen p len).chkAdd len fun len p =>
    (mbedtlsAsn1WriteTag p asn1ConstructedSequence).chkAdd len fun len p =>
      p.returns (.ok (cInt len))

/-- The numbers that `mbedtls_rsa_write_key` writes, the last one first. -/
def exportedMpis (build : Build) (rsa : MbedtlsRsaContext w) :
    Except MpiError (List (MbedtlsMpi w)) :=
  match build with
  | .crt => .ok [rsa.QP, rsa.DQ, rsa.DP, rsa.Q, rsa.P, rsa.D, rsa.E, rsa.N]
  | .noCrt =>
    (mbedtlsRsaDeduceCrt w rsa.P.num rsa.Q.num rsa.D.num).map fun (DP, DQ, QP) =>
      [QP.mpi w, DQ.mpi w, DP.mpi w, rsa.Q, rsa.P, rsa.D, rsa.E, rsa.N]

def mbedtlsRsaWriteKey (build : Build) (rsa : MbedtlsRsaContext w) (p : Asn1Writer) :
    Asn1Written :=
  match exportedMpis build rsa with
  | .error e => p.returns (.error (.mpi e))
  | .ok Xs =>
    writeMpis Xs 0 p fun len p =>
      (mbedtlsAsn1WriteInt p 0).chkAdd len writeSequence

def mbedtlsRsaWritePubkey (rsa : MbedtlsRsaContext w) (p : Asn1Writer) : Asn1Written :=
  writeMpis [rsa.E, rsa.N] 0 p writeSequence

end TfPsaCrypto.RsaDer
