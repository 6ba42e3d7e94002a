import TfPsaCrypto.KeyDerivation.Operation
import TfPsaCrypto.Library.BlockStream

/-!
# Key derivation output

The read functions of the algorithms and `psa_key_derivation_output_bytes`. Three of them read a
stream by blocks (`BlockReader`). A context is returned only on success.
-/

namespace TfPsaCrypto

open Bytes (ByteString)
open BlockStream (BlockReader)

/-! ## What a call depends on -/

/-- The services that one `psa_key_derivation_output_bytes` calls: the allocation of the local
buffer, the MAC computations of each block, the hash computation, and `psa_mac_abort`. -/
structure OutputEnv where
  localAlloc : Bool
  mac : Nat → Nat → PsaStatus
  hash : PsaStatus
  macAbort : PsaStatus

variable (P : KdfPlatform) (env : OutputEnv)

/-! ## HKDF -/

/-- The generation of the next block in `psa_key_derivation_hkdf_read`. -/
def hkdfNextBlock (kdfAlg : PsaAlgorithm) (hkdf : PsaHkdfKeyDerivation) :
    Except PsaStatus PsaHkdfKeyDerivation :=
  let hashAlg := psaAlgKdfGetHash kdfAlg
  let lastBlock := if psaAlgIsHkdfExtract kdfAlg then 0 else 0xff
  if hkdf.blockNumber = lastBlock then .error .errorBadState
  else do
    let blockNumber := (hkdf.blockNumber + 1) % 256
    let previous := if blockNumber ≠ 1 then hkdf.outputBlock else []
    let mac ← macCompute (env.mac blockNumber 0) (P.hmac hashAlg hkdf.prk
      (previous ++ hkdf.info ++ Bytes.toBE 1 blockNumber))
    return { hkdf with
      blockNumber := blockNumber, offsetInBlock := 0, outputBlock := mac }

def hkdfReader (kdfAlg : PsaAlgorithm) :
    BlockReader PsaHkdfKeyDerivation PsaStatus UInt8 where
  size := psaHashLength (psaAlgKdfGetHash kdfAlg)
  block := fun hkdf => hkdf.outputBlock
  used := fun hkdf => hkdf.offsetInBlock
  advance := fun hkdf n => { hkdf with offsetInBlock := hkdf.offsetInBlock + n }
  next := hkdfNextBlock P env kdfAlg

/-- Each block supplies a byte at least, so `output_length` bounds the blocks (`KdfInv.read`). -/
def psaKeyDerivationHkdfRead (hkdf : PsaHkdfKeyDerivation) (kdfAlg : PsaAlgorithm)
    (outputLength : Nat) : Except PsaStatus (PsaHkdfKeyDerivation × ByteString) :=
  if hkdf.state = .init ∨ hkdf.state = .started ∨
      (¬ hkdf.infoSet ∧ ¬ psaAlgIsHkdfExtract kdfAlg) then .error .errorBadState
  else
    (hkdfReader P env kdfAlg).read .errorCorruptionDetected outputLength
      { hkdf with state := .output } outputLength

/-! ## TLS 1.2 PRF and PSK-to-MS -/

def psaKeyDerivationTls12PrfGenerateNextBlock (alg : PsaAlgorithm)
    (tls12Prf : PsaTls12PrfKeyDerivation) :
    Except PsaStatus PsaTls12PrfKeyDerivation :=
  let hashAlg := psaAlgKdfGetHash alg
  let hashLength := psaHashLength hashAlg
  if tls12Prf.blockNumber = 0xff then .error .errorCorruptionDetected
  else do
    let blockNumber := (tls12Prf.blockNumber + 1) % 256
    -- A(1) = HMAC(secret, A(0)), where A(0) is the label and the seed
    let ai ← macCompute (env.mac blockNumber 0) (P.hmac hashAlg tls12Prf.secret
      (if blockNumber = 1 then tls12Prf.label ++ tls12Prf.seed else tls12Prf.ai))
    let outputBlock ← macCompute (env.mac blockNumber 1)
      (P.hmac hashAlg tls12Prf.secret (ai ++ tls12Prf.label ++ tls12Prf.seed))
    return { tls12Prf with
      blockNumber := blockNumber, leftInBlock := hashLength, ai := ai,
      outputBlock := outputBlock }

def tls12PrfReader (alg : PsaAlgorithm) :
    BlockReader PsaTls12PrfKeyDerivation PsaStatus UInt8 where
  size := psaHashLength (psaAlgKdfGetHash alg)
  block := fun prf => prf.outputBlock
  used := fun prf => psaHashLength (psaAlgKdfGetHash alg) - prf.leftInBlock
  advance := fun prf n => { prf with leftInBlock := prf.leftInBlock - n }
  next := psaKeyDerivationTls12PrfGenerateNextBlock P env alg

def psaKeyDerivationTls12PrfRead (tls12Prf : PsaTls12PrfKeyDerivation)
    (alg : PsaAlgorithm) (outputLength : Nat) :
    Except PsaStatus (PsaTls12PrfKeyDerivation × ByteString) :=
  if tls12Prf.state = .labelSet ∨ tls12Prf.state = .output then
    (tls12PrfReader P env alg).read .errorCorruptionDetected outputLength
      { tls12Prf with state := .output } outputLength
  else .error .errorBadState

/-! ## TLS 1.2 ECJPAKE-to-PMS -/

def psaKeyDerivationTls12EcjpakeToPmsRead (ecjpake : PsaTls12EcjpakeToPms)
    (outputLength : Nat) : Except PsaStatus ByteString :=
  if outputLength ≠ 32 then .error .errorInvalidArgument
  else if env.hash ≠ .success then .error env.hash
  else .ok (P.hash psaAlgSha256 ecjpake.data)

/-! ## PBKDF2 -/

/-- The loop of `psa_key_derivation_pbkdf2_generate_block`: `k` iterations from `i` on. -/
def pbkdf2Iterate (prf : ByteString → ByteString) (fault : Nat → PsaStatus) :
    (k i : Nat) → (u accumulator : ByteString) → Except PsaStatus ByteString
  | 0, _, _, accumulator => .ok accumulator
  | k + 1, i, u, accumulator => do
    let u ← macCompute (fault i) (prf u)
    pbkdf2Iterate prf fault k (i + 1) u (Bytes.xor accumulator u)

def pbkdf2Prf (kdfAlg : PsaAlgorithm) :
    Option (Nat × (ByteString → ByteString → ByteString)) :=
  if psaAlgIsPbkdf2Hmac kdfAlg then
    let prfAlg := psaAlgHmac (psaAlgKdfGetHash kdfAlg)
    some (psaHashLength prfAlg, P.hmac (psaAlgHmacGetHash prfAlg))
  else if kdfAlg = psaAlgPbkdf2AesCmacPrf128 then
    some (psaMacLength psaKeyTypeAes psaAlgCmac, P.aesCmac)
  else none

def psaKeyDerivationPbkdf2GenerateBlock
    (prf : ByteString → ByteString → ByteString) (pbkdf2 : PsaPbkdf2KeyDerivation) :
    Except PsaStatus PsaPbkdf2KeyDerivation := do
  let blockNumber := (pbkdf2.blockNumber + 1) % 2 ^ 32
  let u ← macCompute (env.mac blockNumber 0)
    (prf pbkdf2.password (pbkdf2.salt ++ Bytes.toBE 4 blockNumber))
  let block ← pbkdf2Iterate (prf pbkdf2.password) (env.mac blockNumber) (pbkdf2.inputCost - 1) 1 u u
  return { pbkdf2 with
    bytesUsed := 0, blockNumber := blockNumber, outputBlock := block }

def pbkdf2Reader (prfOutputLength : Nat) (prf : ByteString → ByteString → ByteString) :
    BlockReader PsaPbkdf2KeyDerivation PsaStatus UInt8 where
  size := prfOutputLength
  block := fun pbkdf2 => pbkdf2.outputBlock
  used := fun pbkdf2 => pbkdf2.bytesUsed
  advance := fun pbkdf2 n => { pbkdf2 with bytesUsed := pbkdf2.bytesUsed + n }
  next := psaKeyDerivationPbkdf2GenerateBlock env prf

def psaKeyDerivationPbkdf2Read (pbkdf2 : PsaPbkdf2KeyDerivation)
    (kdfAlg : PsaAlgorithm) (outputLength : Nat) :
    Except PsaStatus (PsaPbkdf2KeyDerivation × ByteString) :=
  match pbkdf2Prf P kdfAlg with
  | none => .error .errorInvalidArgument
  | some (prfOutputLength, prf) =>
    let read (pbkdf2 : PsaPbkdf2KeyDerivation) :=
      (pbkdf2Reader env prfOutputLength prf).read .errorCorruptionDetected
        outputLength pbkdf2 outputLength
    match pbkdf2.state with
    | .passwordSet =>
      -- the first request starts with a new block
      read { pbkdf2 with bytesUsed := prfOutputLength, state := .output }
    | .output => read pbkdf2
    | _ => .error .errorBadState

/-! ## `psa_key_derivation_output_bytes` -/

/-- The bytes are those of a successful call. (On the error path the source
overwrites the buffer.) -/
structure OutputResult where
  status : PsaStatus
  operation : PsaKeyDerivationOperation
  output : ByteString

/-- The dispatch of `psa_key_derivation_output_bytes`; `none` for an algorithm that has none. -/
def psaKeyDerivationRead (operation : PsaKeyDerivationOperation)
    (kdfAlg : PsaAlgorithm) (outputLength : Nat) :
    Option (Except PsaStatus (PsaKeyDerivationContext × ByteString)) :=
  let ctx := operation.ctx
  if psaAlgIsAnyHkdf kdfAlg then
    some ((psaKeyDerivationHkdfRead P env ctx.hkdf kdfAlg outputLength).map
      fun r => ({ ctx with hkdf := r.1 }, r.2))
  else if psaAlgIsTls12Prf kdfAlg || psaAlgIsTls12PskToMs kdfAlg then
    some ((psaKeyDerivationTls12PrfRead P env ctx.tls12Prf kdfAlg outputLength).map
      fun r => ({ ctx with tls12Prf := r.1 }, r.2))
  else if kdfAlg = psaAlgTls12EcjpakeToPms then
    some ((psaKeyDerivationTls12EcjpakeToPmsRead P env ctx.tls12EcjpakeToPms
      outputLength).map fun output => (ctx, output))
  else if psaAlgIsPbkdf2 kdfAlg then
    some ((psaKeyDerivationPbkdf2Read P env ctx.pbkdf2 kdfAlg outputLength).map
      fun r => ({ ctx with pbkdf2 := r.1 }, r.2))
  else none

def outputBytesExit (status : PsaStatus) (operation : PsaKeyDerivationOperation) :
    OutputResult :=
  { status := status
    operation := { (psaKeyDerivationAbort env.macAbort operation).2 with
      alg := operation.alg }
    output := [] }

def psaKeyDerivationOutputBytes (operation : PsaKeyDerivationOperation)
    (outputLength : Nat) : OutputResult :=
  let kdfAlg := psaKeyDerivationGetKdfAlg operation
  if operation.alg = 0 then ⟨.errorBadState, operation, []⟩
  else if outputLength = 0 ∧ operation.capacity = 0 then
    ⟨.errorInsufficientData, operation, []⟩
  else if psaCryptoLocalAlloc env.localAlloc outputLength ≠ .success then
    outputBytesExit env .errorInsufficientMemory operation
  else if outputLength > operation.capacity then
    outputBytesExit env .errorInsufficientData { operation with capacity := 0 }
  else
    let operation := { operation with capacity := operation.capacity - outputLength }
    match psaKeyDerivationRead P env operation kdfAlg outputLength with
    | none => ⟨.errorBadState, operation, []⟩
    | some (.error status) => outputBytesExit env status operation
    | some (.ok (ctx, output)) => ⟨.success, { operation with ctx := ctx }, output⟩

end TfPsaCrypto
