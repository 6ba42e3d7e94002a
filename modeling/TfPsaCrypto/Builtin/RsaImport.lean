import TfPsaCrypto.Builtin.RsaDerRoundTrip
import TfPsaCrypto.Core.Types

/-!
# Importing an RSA key

The functions of `psa_crypto_rsa.c` that load, export and import an RSA key, over the parsers
and writers of `rsa.c`. An imported key is parsed and written again. The allocation of the
context succeeds.
-/

namespace TfPsaCrypto.RsaDer

open Bytes Der
open RsaPrivate (Build)

variable {w : Nat}

/-! ## Errors -/

def mpiToPsaError : MpiError → PsaStatus
  | .bufferTooSmall => .errorBufferTooSmall
  | .allocFailed => .errorInsufficientMemory
  | .badInputData | .invalidCharacter | .negativeValue | .divisionByZero | .notAcceptable =>
    .errorInvalidArgument

/-- `mbedtls_to_psa_error` of an error of the ASN.1 functions. -/
def asn1ToPsaError : Asn1Error → PsaStatus
  | .bufTooSmall => .errorBufferTooSmall
  | .mpi e => mpiToPsaError e
  | .outOfData | .unexpectedTag | .invalidLength | .lengthMismatch | .invalidData =>
    .errorInvalidArgument
  -- the call does not return
  | .outOfBounds | .endless => .other 0

/-- `mbedtls_to_psa_error` of an error of `rsa.c`. In a sum of two codes the low seven bits
decide. -/
def rsaToPsaError : RsaError → PsaStatus
  | .badInputData | .keyCheckFailed => .errorInvalidArgument
  | .keyCheckMpi .badInputData | .keyCheckMpi .allocFailed => .errorGenericError
  | .keyCheckMpi _ => .errorInvalidArgument
  | .asn1 e => asn1ToPsaError e
  | .notSupported => .errorNotSupported

/-! ## Loading and exporting -/

def psaKeyTypeIsKeyPair (type : PsaKeyType) : Bool := type &&& 0x7000 = 0x7000

def parseRepresentation (build : Build) (isBigEndian : Bool) (type : PsaKeyType)
    (data : ByteString) : RsaParsed w :=
  if psaKeyTypeIsKeyPair type then mbedtlsRsaParseKey build isBigEndian .init data
  else mbedtlsRsaParsePubkey build isBigEndian .init data

def mbedtlsPsaRsaLoadRepresentation (build : Build) (isBigEndian : Bool) (type : PsaKeyType)
    (data : ByteString) : PsaStatus × MbedtlsRsaContext w :=
  let r := parseRepresentation build isBigEndian type data
  match r.ret with
  | some e => (rsaToPsaError e, r.rsa)
  | none =>
    if r.rsa.len * 8 > psaVendorRsaMaxKeyBits then (.errorNotSupported, r.rsa)
    else if mbedtlsMpiBitlen r.rsa.N % 8 ≠ 0 then (.errorNotSupported, r.rsa)
    else (.success, r.rsa)

def writeRepresentation (build : Build) (type : PsaKeyType) (rsa : MbedtlsRsaContext w)
    (p : Asn1Writer) : Asn1Written :=
  if psaKeyTypeIsKeyPair type then mbedtlsRsaWriteKey build rsa p
  else mbedtlsRsaWritePubkey rsa p

/-- The last `n` bytes are moved to the beginning, and what is left of them is erased. -/
def moveToBeginning (data : ByteString) (n : Nat) : ByteString :=
  let last := slice data (data.length - n) n
  if 2 * n ≤ data.length then
    storeAt (storeAt data 0 last) (data.length - n) (List.replicate n 0)
  else if n < data.length then
    storeAt (storeAt data 0 last) n (List.replicate (data.length - n) 0)
  else data

/-- What `mbedtls_psa_rsa_export_key` returns and leaves in its buffer; a length that is not
written is `none`. -/
structure RsaExported where
  status : PsaStatus
  data : ByteString
  dataLength : Option Nat

def mbedtlsPsaRsaExportKey (build : Build) (type : PsaKeyType) (rsa : MbedtlsRsaContext w)
    (data : ByteString) : RsaExported :=
  let r := writeRepresentation build type rsa { space := data, data := [] }
  match r.ret with
  | .error e =>
    { status := asn1ToPsaError e, data := List.replicate data.length 0, dataLength := none }
  | .ok ret =>
    -- a count that is negative as an `int` is taken for an error
    if ret < 0 then
      { status := .other ret, data := List.replicate data.length 0, dataLength := none }
    else
      { status := .success, data := moveToBeginning (r.p.space ++ r.p.data) ret.toNat
        dataLength := some ret.toNat }

/-! ## Importing -/

/-- What `mbedtls_psa_rsa_import_key` returns and leaves in its buffer. -/
structure RsaImported where
  status : PsaStatus
  keyBuffer : ByteString
  keyBufferLength : Option Nat
  bits : Option Nat

def mbedtlsPsaRsaImportKey (w : Nat) (build : Build) (isBigEndian : Bool) (type : PsaKeyType)
    (data keyBuffer : ByteString) : RsaImported :=
  match (mbedtlsPsaRsaLoadRepresentation build isBigEndian type data :
      PsaStatus × MbedtlsRsaContext w) with
  | (.success, rsa) =>
    let r := mbedtlsPsaRsaExportKey build type rsa keyBuffer
    { status := r.status, keyBuffer := r.data, keyBufferLength := r.dataLength
      bits := some (rsa.len * 8) }
  | (status, _) =>
    { status := status, keyBuffer := keyBuffer, keyBufferLength := none, bits := none }

/-- The driver's part of `psa_import_key`, on a buffer of zeros as long as the input. -/
def importKey (w : Nat) (build : Build) (isBigEndian : Bool) (type : PsaKeyType)
    (data : ByteString) : RsaImported :=
  mbedtlsPsaRsaImportKey w build isBigEndian type data (List.replicate data.length 0)

/-- The numbers of the CRT can be computed from `d`, `p` and `q`: `q` has an inverse, and what is
divided has no more limbs than can be divided. -/
structure Deducible (d p q dLimbs pLimbs qLimbs inverse : Nat) : Prop where
  lt : inverse < p
  mul_inverse : q * inverse % p = 1
  p_limbs : pLimbs ≤ mbedtlsMpiMaxLimbs
  q_limbs : qLimbs ≤ mbedtlsMpiMaxLimbs
  d_mod_p : p - 1 ≤ d → dLimbs ≤ mpiDivLimbs
  d_mod_q : q - 1 ≤ d → dLimbs ≤ mpiDivLimbs
  q_mod_p : p ≤ q → qLimbs ≤ mpiDivLimbs

end TfPsaCrypto.RsaDer
