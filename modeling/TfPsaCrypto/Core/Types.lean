import Mathlib.Data.BitVec

/-!
# Types of the PSA Crypto API

Status codes, the fixed-width integer types of key attributes, and the
attribute structures, as in `psa/crypto_types.h`, `psa/crypto_values.h` and
`psa/crypto_struct.h`.
-/

namespace TfPsaCrypto

/-! ## Status codes -/

/-- `psa_status_t`. The codes that the library itself produces are named; a
driver or a platform call may return any other one. -/
inductive PsaStatus where
  | success
  | errorGenericError
  | errorNotSupported
  | errorNotPermitted
  | errorBufferTooSmall
  | errorAlreadyExists
  | errorDoesNotExist
  | errorBadState
  | errorInvalidArgument
  | errorInsufficientMemory
  | errorInsufficientStorage
  | errorCommunicationFailure
  | errorStorageFailure
  | errorHardwareFailure
  | errorCorruptionDetected
  | errorInsufficientEntropy
  | errorInvalidSignature
  | errorInvalidPadding
  | errorInsufficientData
  | errorServiceFailure
  | errorInvalidHandle
  | errorDataCorrupt
  | errorDataInvalid
  | operationIncomplete
  | other (code : Int)
  deriving DecidableEq, Repr

structure PsaError where
  status : PsaStatus
  ne_success : status ≠ .success

/-! ## Integer types -/

abbrev PsaAlgorithm := BitVec 32
abbrev PsaKeyType := BitVec 16
abbrev PsaKeyBits := BitVec 16
abbrev PsaKeyUsage := BitVec 32
abbrev PsaKeyLifetime := BitVec 32
abbrev PsaKeyId := BitVec 32

def psaKeyLifetimeVolatile : PsaKeyLifetime := 0x00000000
def psaKeyLifetimePersistent : PsaKeyLifetime := 0x00000001

def psaKeyPersistenceVolatile : BitVec 8 := 0x00
def psaKeyPersistenceReadOnly : BitVec 8 := 0xff

/-- The low byte of a lifetime. -/
def psaKeyLifetimeGetPersistence (lifetime : PsaKeyLifetime) : BitVec 8 := lifetime.setWidth 8

/-- The other 24 bits. -/
def psaKeyLifetimeGetLocation (lifetime : PsaKeyLifetime) : BitVec 32 := lifetime >>> 8

def psaKeyLifetimeIsVolatile (lifetime : PsaKeyLifetime) : Bool :=
  psaKeyLifetimeGetPersistence lifetime = psaKeyPersistenceVolatile

def psaKeyLifetimeIsReadOnly (lifetime : PsaKeyLifetime) : Bool :=
  psaKeyLifetimeGetPersistence lifetime = psaKeyPersistenceReadOnly

/-! ## Key attributes -/

structure PsaKeyPolicy where
  usage : PsaKeyUsage
  alg : PsaAlgorithm
  alg2 : PsaAlgorithm
  deriving DecidableEq, Repr

structure PsaKeyAttributes where
  type : PsaKeyType
  bits : PsaKeyBits
  lifetime : PsaKeyLifetime
  policy : PsaKeyPolicy
  id : PsaKeyId
  deriving DecidableEq, Repr

def psaKeyAttributesInit : PsaKeyAttributes :=
  { type := 0, bits := 0, lifetime := psaKeyLifetimeVolatile,
    policy := { usage := 0, alg := 0, alg2 := 0 }, id := 0 }

/-! ## Local copies of caller buffers -/

/-- `psa_crypto_local_input_alloc` and `psa_crypto_local_output_alloc`: `calloc` says whether the
allocation succeeds; no bytes need none. -/
def psaCryptoLocalAlloc (calloc : Bool) (length : Nat) : PsaStatus :=
  if length = 0 then .success
  else if calloc then .success
  else .errorInsufficientMemory

end TfPsaCrypto
