import TfPsaCrypto.Core.KeyPolicy
import TfPsaCrypto.Library.Hmac

/-!
# Key derivation operations

The operation structure with its contexts, and setup, capacity and abort. The members of the union
are kept apart; a heap buffer and its length are one byte string.
-/

namespace TfPsaCrypto

open Bytes (ByteString)

/-! ## Algorithms -/

def psaAlgHkdfBase : PsaAlgorithm := 0x08000100
def psaAlgTls12PrfBase : PsaAlgorithm := 0x08000200
def psaAlgTls12PskToMsBase : PsaAlgorithm := 0x08000300
def psaAlgHkdfExtractBase : PsaAlgorithm := 0x08000400
def psaAlgHkdfExpandBase : PsaAlgorithm := 0x08000500
def psaAlgTls12EcjpakeToPms : PsaAlgorithm := 0x08000609
def psaAlgPbkdf2HmacBase : PsaAlgorithm := 0x08800100
def psaAlgPbkdf2AesCmacPrf128 : PsaAlgorithm := 0x08800200

def psaAlgIsHkdf (alg : PsaAlgorithm) : Bool := alg &&& ~~~psaAlgHashMask = psaAlgHkdfBase

def psaAlgIsHkdfExtract (alg : PsaAlgorithm) : Bool :=
  alg &&& ~~~psaAlgHashMask = psaAlgHkdfExtractBase

def psaAlgIsHkdfExpand (alg : PsaAlgorithm) : Bool :=
  alg &&& ~~~psaAlgHashMask = psaAlgHkdfExpandBase

def psaAlgIsAnyHkdf (alg : PsaAlgorithm) : Bool :=
  psaAlgIsHkdf alg || psaAlgIsHkdfExtract alg || psaAlgIsHkdfExpand alg

def psaAlgIsTls12Prf (alg : PsaAlgorithm) : Bool := alg &&& ~~~psaAlgHashMask = psaAlgTls12PrfBase

def psaAlgIsTls12PskToMs (alg : PsaAlgorithm) : Bool :=
  alg &&& ~~~psaAlgHashMask = psaAlgTls12PskToMsBase

def psaAlgIsPbkdf2Hmac (alg : PsaAlgorithm) : Bool :=
  alg &&& ~~~psaAlgHashMask = psaAlgPbkdf2HmacBase

def psaAlgIsPbkdf2 (alg : PsaAlgorithm) : Bool :=
  psaAlgIsPbkdf2Hmac alg || decide (alg = psaAlgPbkdf2AesCmacPrf128)

/-- `PSA_ALG_HKDF_GET_HASH`, the same for `TLS12_PRF` and `PBKDF2_HMAC`. -/
def psaAlgKdfGetHash (alg : PsaAlgorithm) : PsaAlgorithm :=
  psaAlgCategoryHash ||| (alg &&& psaAlgHashMask)

theorem psaHashLength_congr {x y : PsaAlgorithm}
    (h : psaAlgHmacGetHash x = psaAlgHmacGetHash y) : psaHashLength x = psaHashLength y := by
  unfold psaHashLength
  rw [h]

theorem psaAlgHmacGetHash_hmac (hashAlg : PsaAlgorithm) :
    psaAlgHmacGetHash (psaAlgHmac hashAlg) = psaAlgHmacGetHash hashAlg := by
  rw [psaAlgHmacGetHash, psaAlgHmac, BitVec.and_or_distrib_right,
    show psaAlgHmacBase &&& psaAlgHashMask = 0#32 by decide,
    Masks.and_and_of_subset (by decide), BitVec.zero_or]
  rfl

theorem psaAlgHmacGetHash_kdf (alg : PsaAlgorithm) :
    psaAlgHmacGetHash (psaAlgKdfGetHash alg) = psaAlgKdfGetHash alg := by
  rw [psaAlgHmacGetHash, psaAlgKdfGetHash, BitVec.and_or_distrib_right,
    show psaAlgCategoryHash &&& psaAlgHashMask = 0#32 by decide,
    Masks.and_and_of_subset (by decide), BitVec.zero_or]

def psaAlgGetHash (alg : PsaAlgorithm) : PsaAlgorithm :=
  if alg &&& 0x000000ff = 0 then 0 else 0x02000000 ||| (alg &&& 0x000000ff)

def psaKeyTypeAes : PsaKeyType := 0x2400
def psaAlgCmac : PsaAlgorithm := 0x03c00200

@[simp] theorem psaMacLength_aes_cmac : psaMacLength psaKeyTypeAes psaAlgCmac = 16 := by
  decide

def psaAlgEcdh : PsaAlgorithm := 0x09020000
def psaAlgFfdh : PsaAlgorithm := 0x09010000

def isKdfAlgSupported (kdfAlg : PsaAlgorithm) : Bool :=
  psaAlgIsHkdf kdfAlg || psaAlgIsHkdfExtract kdfAlg || psaAlgIsHkdfExpand kdfAlg ||
    psaAlgIsTls12Prf kdfAlg || psaAlgIsTls12PskToMs kdfAlg ||
    decide (kdfAlg = psaAlgTls12EcjpakeToPms) || psaAlgIsPbkdf2Hmac kdfAlg ||
    decide (kdfAlg = psaAlgPbkdf2AesCmacPrf128)

/-! ## Inputs -/

inductive PsaKeyDerivationStep where
  | secret
  | password
  | otherSecret
  | label
  | salt
  | info
  | seed
  | cost
  | other (value : BitVec 16)
  deriving DecidableEq, Repr

inductive KdfInput where
  | bytes (data : ByteString)
  | integer (value : Nat)
  deriving DecidableEq, Repr

/-! ## Contexts -/

inductive HkdfState where
  | init | started | keyed | output
  deriving DecidableEq, Repr

/-- `psa_hkdf_key_derivation_t`. `hmac` is the key of the MAC operation that the
salt starts and the secret finishes. -/
structure PsaHkdfKeyDerivation where
  info : ByteString
  offsetInBlock : Nat
  blockNumber : Nat
  state : HkdfState
  infoSet : Bool
  outputBlock : ByteString
  prk : ByteString
  hmac : ByteString
  deriving DecidableEq, Repr

inductive PsaTls12PrfState where
  | init | seedSet | otherKeySet | keySet | labelSet | output
  deriving DecidableEq, Repr

structure PsaTls12PrfKeyDerivation where
  leftInBlock : Nat
  blockNumber : Nat
  state : PsaTls12PrfState
  secret : ByteString
  seed : ByteString
  label : ByteString
  otherSecret : ByteString
  ai : ByteString
  outputBlock : ByteString
  deriving DecidableEq, Repr

/-- An array of 32 bytes. -/
structure PsaTls12EcjpakeToPms where
  data : ByteString
  deriving DecidableEq, Repr

inductive PsaPbkdf2State where
  | init | inputCostSet | saltSet | passwordSet | output
  deriving DecidableEq, Repr

structure PsaPbkdf2KeyDerivation where
  state : PsaPbkdf2State
  inputCost : Nat
  salt : ByteString
  password : ByteString
  outputBlock : ByteString
  bytesUsed : Nat
  blockNumber : Nat
  deriving DecidableEq, Repr

structure PsaKeyDerivationContext where
  hkdf : PsaHkdfKeyDerivation
  tls12Prf : PsaTls12PrfKeyDerivation
  tls12EcjpakeToPms : PsaTls12EcjpakeToPms
  pbkdf2 : PsaPbkdf2KeyDerivation
  deriving DecidableEq, Repr

structure PsaKeyDerivationOperation where
  alg : PsaAlgorithm
  canOutputKey : Bool
  capacity : Nat
  ctx : PsaKeyDerivationContext
  deriving DecidableEq, Repr

def psaTls12EcjpakeToPmsDataSize : Nat := 32

def psaKeyDerivationContextZero : PsaKeyDerivationContext :=
  { hkdf := { info := [], offsetInBlock := 0, blockNumber := 0, state := .init,
              infoSet := false, outputBlock := [], prk := [], hmac := [] }
    tls12Prf := { leftInBlock := 0, blockNumber := 0, state := .init, secret := [],
                  seed := [], label := [], otherSecret := [], ai := [],
                  outputBlock := [] }
    tls12EcjpakeToPms := { data := List.replicate psaTls12EcjpakeToPmsDataSize 0 }
    pbkdf2 := { state := .init, inputCost := 0, salt := [], password := [],
                outputBlock := [], bytesUsed := 0, blockNumber := 0 } }

def psaKeyDerivationOperationInit : PsaKeyDerivationOperation :=
  { alg := 0, canOutputKey := false, capacity := 0,
    ctx := psaKeyDerivationContextZero }

/-! ## The platform -/

/-- The size of `size_t`, and the drivers that compute hashes and AES-CMAC. -/
structure KdfPlatform where
  sizeMax : Nat
  sizeMax_eq : sizeMax = 2 ^ 32 - 1 ∨ sizeMax = 2 ^ 64 - 1
  hash : PsaAlgorithm → ByteString → ByteString
  length_hash : ∀ alg m, (hash alg m).length = psaHashLength alg
  aesCmac : ByteString → ByteString → ByteString
  length_aesCmac : ∀ key m, (aesCmac key m).length = 16

variable (P : KdfPlatform)

def KdfPlatform.hmac (hashAlg : PsaAlgorithm) (key message : ByteString) :
    ByteString :=
  Hmac.hmac (P.hash hashAlg) (psaHashBlockLength hashAlg) key message

@[simp] theorem KdfPlatform.length_hmac (hashAlg : PsaAlgorithm)
    (key message : ByteString) :
    (P.hmac hashAlg key message).length = psaHashLength hashAlg := by
  rw [KdfPlatform.hmac, Hmac.hmac, P.length_hash]

def macCompute (fault : PsaStatus) (mac : ByteString) : Except PsaStatus ByteString :=
  if fault = .success then .ok mac else .error fault

/-! ## Operation management -/

def psaKeyDerivationGetKdfAlg (operation : PsaKeyDerivationOperation) : PsaAlgorithm :=
  if psaAlgIsKeyAgreement operation.alg then psaAlgKeyAgreementGetKdf operation.alg
  else operation.alg

def psaKeyDerivationAbort (macAbort : PsaStatus)
    (operation : PsaKeyDerivationOperation) : PsaStatus × PsaKeyDerivationOperation :=
  let kdfAlg := psaKeyDerivationGetKdfAlg operation
  let status :=
    if kdfAlg = 0 then .success
    else if psaAlgIsAnyHkdf kdfAlg then macAbort
    else if psaAlgIsTls12Prf kdfAlg || psaAlgIsTls12PskToMs kdfAlg then .success
    else if kdfAlg = psaAlgTls12EcjpakeToPms then .success
    else if psaAlgIsPbkdf2 kdfAlg then .success
    else .errorBadState
  (status, psaKeyDerivationOperationInit)

def psaKeyDerivationGetCapacity (operation : PsaKeyDerivationOperation) :
    PsaStatus × Option Nat :=
  if operation.alg = 0 then (.errorBadState, none)
  else (.success, some operation.capacity)

def psaKeyDerivationSetCapacity (operation : PsaKeyDerivationOperation)
    (capacity : Nat) : PsaStatus × PsaKeyDerivationOperation :=
  if operation.alg = 0 then (.errorBadState, operation)
  else if capacity > operation.capacity then (.errorInvalidArgument, operation)
  else (.success, { operation with capacity := capacity })

/-- `hashTrySupport` stands for `psa_hash_try_support`. -/
def psaKeyDerivationSetMaximumCapacity (hashTrySupport : PsaAlgorithm → PsaStatus)
    (operation : PsaKeyDerivationOperation) (kdfAlg : PsaAlgorithm) :
    PsaStatus × PsaKeyDerivationOperation :=
  if kdfAlg = psaAlgTls12EcjpakeToPms then
    (.success, { operation with capacity := psaHashLength psaAlgSha256 })
  else if kdfAlg = psaAlgPbkdf2AesCmacPrf128 then
    if P.sizeMax > 2 ^ 32 - 1 then
      (.success, { operation with
        capacity := (2 ^ 32 - 1) * psaMacLength psaKeyTypeAes psaAlgCmac })
    else (.success, { operation with capacity := P.sizeMax })
  else
    let hashAlg := psaAlgGetHash kdfAlg
    let hashSize := psaHashLength hashAlg
    if hashSize = 0 then (.errorNotSupported, operation)
    else if hashTrySupport hashAlg ≠ .success then (hashTrySupport hashAlg, operation)
    else if psaAlgIsHkdf kdfAlg then
      (.success, { operation with capacity := 255 * hashSize })
    else if psaAlgIsHkdfExtract kdfAlg then
      (.success, { operation with capacity := hashSize })
    else if psaAlgIsHkdfExpand kdfAlg then
      (.success, { operation with capacity := 255 * hashSize })
    else if psaAlgIsTls12Prf kdfAlg ∧
        (hashAlg = psaAlgSha256 ∨ hashAlg = psaAlgSha384) then
      (.success, { operation with capacity := P.sizeMax })
    else if psaAlgIsTls12PskToMs kdfAlg ∧
        (hashAlg = psaAlgSha256 ∨ hashAlg = psaAlgSha384) then
      -- the master secret is always 48 bytes
      (.success, { operation with capacity := 48 })
    else if psaAlgIsPbkdf2Hmac kdfAlg then
      if P.sizeMax > 2 ^ 32 - 1 then
        (.success, { operation with capacity := (2 ^ 32 - 1) * hashSize })
      else (.success, { operation with capacity := P.sizeMax })
    else (.errorNotSupported, operation)

def psaKeyDerivationSetupKdf (hashTrySupport : PsaAlgorithm → PsaStatus)
    (operation : PsaKeyDerivationOperation) (kdfAlg : PsaAlgorithm) :
    PsaStatus × PsaKeyDerivationOperation :=
  let operation := { operation with ctx := psaKeyDerivationContextZero }
  if isKdfAlgSupported kdfAlg then
    psaKeyDerivationSetMaximumCapacity P hashTrySupport operation kdfAlg
  else (.errorNotSupported, operation)

def psaKeyAgreementTrySupport (alg : PsaAlgorithm) : PsaStatus :=
  if alg = psaAlgEcdh then .success
  else if alg = psaAlgFfdh then .success
  else .errorNotSupported

def psaKeyDerivationAllowsFreeFormSecretInput (kdfAlg : PsaAlgorithm) : Bool :=
  kdfAlg ≠ psaAlgTls12EcjpakeToPms

def psaKeyDerivationSetup (hashTrySupport : PsaAlgorithm → PsaStatus)
    (operation : PsaKeyDerivationOperation) (alg : PsaAlgorithm) :
    PsaStatus × PsaKeyDerivationOperation :=
  -- the algorithm is recorded only when the key derivation is set up
  let done (r : PsaStatus × PsaKeyDerivationOperation) :=
    if r.1 = .success then (r.1, { r.2 with alg := alg }) else r
  if operation.alg ≠ 0 then (.errorBadState, operation)
  else if psaAlgIsRawKeyAgreement alg then (.errorInvalidArgument, operation)
  else if psaAlgIsKeyAgreement alg then
    let kdfAlg := psaAlgKeyAgreementGetKdf alg
    let kaAlg := psaAlgKeyAgreementGetBase alg
    if psaKeyAgreementTrySupport kaAlg ≠ .success then
      (psaKeyAgreementTrySupport kaAlg, operation)
    else if psaKeyDerivationAllowsFreeFormSecretInput kdfAlg then
      done (psaKeyDerivationSetupKdf P hashTrySupport operation kdfAlg)
    else (.errorInvalidArgument, operation)
  else if psaAlgIsKeyDerivation alg then
    done (psaKeyDerivationSetupKdf P hashTrySupport operation alg)
  else (.errorInvalidArgument, operation)

end TfPsaCrypto
