import TfPsaCrypto.Core.Algorithm
import TfPsaCrypto.Library.Bytes
import TfPsaCrypto.Library.Machine

/-!
# Multipart AEAD operations

The entry points of `psa_crypto.c` on a `psa_aead_operation_t`, with their driver calls. Output
buffers are sizes.
-/

namespace TfPsaCrypto

open Bytes

/-! ## State, driver calls and environment -/

/-- `psa_aead_operation_t`. `κ` is the type of driver contexts. -/
structure PsaAeadOperation (κ : Type*) where
  id : Nat
  alg : PsaAlgorithm
  keyType : PsaKeyType
  adRemaining : Nat
  bodyRemaining : Nat
  nonceSet : Bool
  lengthsSet : Bool
  adStarted : Bool
  bodyStarted : Bool
  isEncrypt : Bool
  ctx : κ
  deriving DecidableEq, Repr

variable {κ : Type*}

/-- The state after `PSA_AEAD_OPERATION_INIT`, which need not zero the whole context. -/
def PsaAeadOperation.init (ctx : κ) : PsaAeadOperation κ :=
  { id := 0, alg := 0, keyType := 0, adRemaining := 0, bodyRemaining := 0,
    nonceSet := false, lengthsSet := false, adStarted := false,
    bodyStarted := false, isEncrypt := false, ctx := ctx }

inductive DriverCall where
  | setup (isEncrypt : Bool) (alg : PsaAlgorithm)
  | setNonce (nonce : ByteString)
  | setLengths (adLength plaintextLength : Nat)
  | updateAd (input : ByteString)
  | update (input : ByteString)
  | finish
  | verify (tag : ByteString)
  | abort
  deriving DecidableEq, Repr

structure DriverEvent where
  call : DriverCall
  status : PsaStatus
  deriving DecidableEq, Repr

structure DriverResult (κ : Type*) where
  status : PsaStatus
  ctx : κ

/-- The answer of `psa_driver_wrapper_aead_{encrypt,decrypt}_setup`, which records the driver's
identifier before it calls the driver; it calls none where there is none. -/
inductive SetupResult (κ : Type*) where
  | invalidLocation
  | notSupported
  | entered (id : Nat) (id_ne_zero : id ≠ 0) (result : DriverResult κ)

structure AeadEnv (κ : Type*) where
  /-- `psa_get_and_lock_key_slot_with_policy`: the type of the key. -/
  keySlot : Except PsaError PsaKeyType
  /-- `psa_unregister_read_under_mutex`. -/
  unregister : PsaStatus
  setup : SetupResult κ
  /-- The driver call of every other entry point. -/
  driver : DriverResult κ
  driverAbort : PsaStatus
  random : PsaStatus
  /-- Allocation of the local copies of the input and output buffers. -/
  inputCalloc : Bool
  outputCalloc : Bool
  tagCalloc : Bool

structure AeadResult (κ : Type*) where
  status : PsaStatus
  operation : PsaAeadOperation κ
  log : List DriverEvent

/-! ## Checks -/

def psaAeadGetBaseAlgorithm (alg : PsaAlgorithm) : PsaAlgorithm :=
  psaAlgAeadWithDefaultLengthTag alg

def psaAeadCheckAlgorithm (alg : PsaAlgorithm) : PsaStatus :=
  if !psaAlgIsAead alg || psaAlgIsWildcard alg then .errorInvalidArgument
  else .success

def psaAeadCheckNonceLength (alg : PsaAlgorithm) (nonceLength : Nat) : PsaStatus :=
  let baseAlg := psaAeadGetBaseAlgorithm alg
  if baseAlg = psaAlgGcm then
    if nonceLength ≠ 0 then .success else .errorInvalidArgument
  else if baseAlg = psaAlgCcm then
    if nonceLength ≥ 7 ∧ nonceLength ≤ 13 then .success else .errorInvalidArgument
  else if baseAlg = psaAlgChacha20Poly1305 then
    if nonceLength = 12 then .success
    else if nonceLength = 8 then .errorNotSupported
    else .errorInvalidArgument
  else .errorNotSupported

def psaValidateTagLength (alg : PsaAlgorithm) : PsaStatus :=
  let tagLen := psaAlgAeadGetTagLength alg
  let base := psaAlgAeadWithShortenedTag alg 0
  if base = psaAlgAeadWithShortenedTag psaAlgCcm 0 then
    if tagLen < 4 ∨ tagLen > 16 ∨ tagLen % 2 ≠ 0 then .errorInvalidArgument
    else .success
  else if base = psaAlgAeadWithShortenedTag psaAlgGcm 0 then
    if tagLen ≠ 4 ∧ tagLen ≠ 8 ∧ (tagLen < 12 ∨ tagLen > 16) then
      .errorInvalidArgument
    else .success
  else if base = psaAlgAeadWithShortenedTag psaAlgChacha20Poly1305 0 then
    if tagLen ≠ 16 then .errorInvalidArgument else .success
  else .errorNotSupported

def psaAeadFinalChecks (operation : PsaAeadOperation κ) : PsaStatus :=
  if operation.alg = psaAlgCcm ∧ operation.lengthsSet = false then .errorBadState
  else if operation.id = 0 ∨ operation.nonceSet = false then .errorBadState
  else if operation.lengthsSet ∧
      (operation.adRemaining ≠ 0 ∨ operation.bodyRemaining ≠ 0) then
    .errorInvalidArgument
  else .success

/-! ## Entry points -/

section EntryPoints

variable [Zero κ] (env : AeadEnv κ) (operation : PsaAeadOperation κ)

def psaAeadAbort : AeadResult κ :=
  if operation.id = 0 then
    { status := .success, operation := operation, log := [] }
  else
    { status := env.driverAbort
      operation := PsaAeadOperation.init 0
      log := [{ call := .abort, status := env.driverAbort }] }

def abortWith (log : List DriverEvent) (status : PsaStatus) : AeadResult κ :=
  let abort := psaAeadAbort env operation
  { status := status, operation := abort.operation, log := log ++ abort.log }

/-- The end of an entry point that reached the driver; `done` is applied on success. -/
def driverExit (call : DriverCall)
    (done : PsaAeadOperation κ → PsaAeadOperation κ) : AeadResult κ :=
  let operation := { operation with ctx := env.driver.ctx }
  let log := [{ call := call, status := env.driver.status }]
  if env.driver.status = .success then
    { status := .success, operation := done operation, log := log }
  else
    abortWith env operation log env.driver.status

def psaAeadSetup (isEncrypt : Bool) (alg : PsaAlgorithm) : AeadResult κ :=
  if psaAeadCheckAlgorithm alg ≠ .success then
    abortWith env operation [] (psaAeadCheckAlgorithm alg)
  else if operation.id ≠ 0 then
    abortWith env operation [] .errorBadState
  else if operation.nonceSet ∨ operation.lengthsSet ∨ operation.adStarted ∨
      operation.bodyStarted then
    abortWith env operation [] .errorBadState
  else
    let operation := { operation with ctx := 0 }
    match env.keySlot with
    | .error e => abortWith env operation [] e.status
    | .ok keyType =>
      if psaValidateTagLength alg ≠ .success then
        abortWith env operation [] (psaValidateTagLength alg)
      else
        match env.setup with
        | .invalidLocation => abortWith env operation [] .errorInvalidArgument
        | .notSupported => abortWith env operation [] .errorNotSupported
        | .entered id _ result =>
          let operation := { operation with id := id, ctx := result.ctx }
          let log := [{ call := .setup isEncrypt alg, status := result.status }]
          if result.status ≠ .success then
            abortWith env operation log result.status
          else
            -- the status of the unlock is returned, with no abort
            { status := env.unregister
              operation :=
                { operation with
                    keyType := keyType
                    alg := psaAeadGetBaseAlgorithm alg
                    isEncrypt := isEncrypt }
              log := log }

def psaAeadSetNonceInternal (nonce : ByteString) : AeadResult κ :=
  if operation.id = 0 then
    abortWith env operation [] .errorBadState
  else if operation.nonceSet then
    abortWith env operation [] .errorBadState
  else if psaAeadCheckNonceLength operation.alg nonce.length ≠ .success then
    abortWith env operation [] .errorInvalidArgument
  else
    driverExit env operation (.setNonce nonce) fun op => { op with nonceSet := true }

/-- Where the generator returns `randomNonce`. -/
def psaAeadGenerateNonce (nonceSize : Nat) (randomNonce : Nat → ByteString) :
    AeadResult κ :=
  let alloc := psaCryptoLocalAlloc env.outputCalloc nonceSize
  let requiredNonceSize := psaAeadNonceLength operation.keyType operation.alg
  if alloc ≠ .success then
    abortWith env operation [] alloc
  else if operation.id = 0 then
    abortWith env operation [] .errorBadState
  else if operation.nonceSet ∨ operation.isEncrypt = false then
    abortWith env operation [] .errorBadState
  else if nonceSize < requiredNonceSize then
    abortWith env operation [] .errorBufferTooSmall
  else if env.random ≠ .success then
    abortWith env operation [] env.random
  else
    let set := psaAeadSetNonceInternal env operation (randomNonce requiredNonceSize)
    if set.status ≠ .success then
      abortWith env set.operation set.log set.status
    else
      set

/-- `psa_aead_set_nonce`. Without a local copy of the nonce it exits with no `psa_aead_abort`. -/
def psaAeadSetNonce (nonce : ByteString) : AeadResult κ :=
  let alloc := psaCryptoLocalAlloc env.inputCalloc nonce.length
  if alloc ≠ .success then
    { status := alloc, operation := operation, log := [] }
  else
    psaAeadSetNonceInternal env operation nonce

/-- Where `size_t` is wider than 32 bits. -/
def psaAeadSetLengths (adLength plaintextLength : Nat) : AeadResult κ :=
  if operation.id = 0 then
    abortWith env operation [] .errorBadState
  else if operation.lengthsSet ∨ operation.adStarted ∨ operation.bodyStarted then
    abortWith env operation [] .errorBadState
  else if operation.alg = psaAlgGcm ∧
      (adLength / 2 ^ 61 ≠ 0 ∨ plaintextLength > 0xFFFFFFFE0) then
    abortWith env operation [] .errorInvalidArgument
  else if operation.alg = psaAlgCcm ∧ adLength > 0xFF00 then
    abortWith env operation [] .errorInvalidArgument
  else
    driverExit env operation (.setLengths adLength plaintextLength) fun op =>
      { op with
          adRemaining := adLength
          bodyRemaining := plaintextLength
          lengthsSet := true }

def psaAeadUpdateAd (input : ByteString) : AeadResult κ :=
  let alloc := psaCryptoLocalAlloc env.inputCalloc input.length
  if alloc ≠ .success then
    abortWith env operation [] alloc
  else if operation.id = 0 then
    abortWith env operation [] .errorBadState
  else if operation.nonceSet = false ∨ operation.bodyStarted then
    abortWith env operation [] .errorBadState
  else if input.length = 0 then
    -- nothing to add, but additional data counts as started
    { status := .success
      operation := { operation with adStarted := true }
      log := [] }
  else if operation.lengthsSet then
    if operation.adRemaining < input.length then
      abortWith env operation [] .errorInvalidArgument
    else
      driverExit env
        { operation with adRemaining := operation.adRemaining - input.length }
        (.updateAd input) fun op => { op with adStarted := true }
  else if operation.alg = psaAlgCcm then
    abortWith env operation [] .errorBadState
  else
    driverExit env operation (.updateAd input) fun op => { op with adStarted := true }

def psaAeadUpdate (input : ByteString) (outputSize : Nat) : AeadResult κ :=
  let inputAlloc := psaCryptoLocalAlloc env.inputCalloc input.length
  let outputAlloc := psaCryptoLocalAlloc env.outputCalloc outputSize
  if inputAlloc ≠ .success then
    abortWith env operation [] inputAlloc
  else if outputAlloc ≠ .success then
    abortWith env operation [] outputAlloc
  else if operation.id = 0 then
    abortWith env operation [] .errorBadState
  else if operation.nonceSet = false then
    abortWith env operation [] .errorBadState
  else if operation.lengthsSet then
    if operation.adRemaining ≠ 0 then
      abortWith env operation [] .errorInvalidArgument
    else if operation.bodyRemaining < input.length then
      abortWith env operation [] .errorInvalidArgument
    else
      driverExit env
        { operation with bodyRemaining := operation.bodyRemaining - input.length }
        (.update input) fun op => { op with bodyStarted := true }
  else if operation.alg = psaAlgCcm then
    abortWith env operation [] .errorBadState
  else
    driverExit env operation (.update input) fun op => { op with bodyStarted := true }

/-- The end of `psa_aead_finish` and `psa_aead_verify`: the operation is aborted in any case. -/
def psaAeadFinal (encrypt : Bool) (call : DriverCall) : AeadResult κ :=
  if psaAeadFinalChecks operation ≠ .success then
    abortWith env operation [] (psaAeadFinalChecks operation)
  else if operation.isEncrypt ≠ encrypt then
    abortWith env operation [] .errorBadState
  else
    abortWith env { operation with ctx := env.driver.ctx }
      [{ call := call, status := env.driver.status }] env.driver.status

def psaAeadFinish (ciphertextSize tagSize : Nat) : AeadResult κ :=
  let ciphertextAlloc := psaCryptoLocalAlloc env.outputCalloc ciphertextSize
  let tagAlloc := psaCryptoLocalAlloc env.tagCalloc tagSize
  if ciphertextAlloc ≠ .success then
    abortWith env operation [] ciphertextAlloc
  else if tagAlloc ≠ .success then
    abortWith env operation [] tagAlloc
  else
    psaAeadFinal env operation true .finish

def psaAeadVerify (plaintextSize : Nat) (tag : ByteString) : AeadResult κ :=
  let plaintextAlloc := psaCryptoLocalAlloc env.outputCalloc plaintextSize
  let tagAlloc := psaCryptoLocalAlloc env.tagCalloc tag.length
  if plaintextAlloc ≠ .success then
    abortWith env operation [] plaintextAlloc
  else if tagAlloc ≠ .success then
    abortWith env operation [] tagAlloc
  else
    psaAeadFinal env operation false (.verify tag)

end EntryPoints

/-! ## Sequences of calls -/

inductive AeadCall where
  | encryptSetup (alg : PsaAlgorithm)
  | decryptSetup (alg : PsaAlgorithm)
  | generateNonce (nonceSize : Nat) (randomNonce : Nat → ByteString)
  | setNonce (nonce : ByteString)
  | setLengths (adLength plaintextLength : Nat)
  | updateAd (input : ByteString)
  | update (input : ByteString) (outputSize : Nat)
  | finish (ciphertextSize tagSize : Nat)
  | verify (plaintextSize : Nat) (tag : ByteString)
  | abort

def aeadCall [Zero κ] (env : AeadEnv κ) (operation : PsaAeadOperation κ) :
    AeadCall → AeadResult κ
  | .encryptSetup alg => psaAeadSetup env operation true alg
  | .decryptSetup alg => psaAeadSetup env operation false alg
  | .generateNonce nonceSize randomNonce =>
    psaAeadGenerateNonce env operation nonceSize randomNonce
  | .setNonce nonce => psaAeadSetNonce env operation nonce
  | .setLengths adLength plaintextLength =>
    psaAeadSetLengths env operation adLength plaintextLength
  | .updateAd input => psaAeadUpdateAd env operation input
  | .update input outputSize => psaAeadUpdate env operation input outputSize
  | .finish ciphertextSize tagSize =>
    psaAeadFinish env operation ciphertextSize tagSize
  | .verify plaintextSize tag => psaAeadVerify env operation plaintextSize tag
  | .abort => psaAeadAbort env operation

structure AeadObservation where
  status : PsaStatus
  log : List DriverEvent
  deriving DecidableEq, Repr

def aeadMachine [Zero κ] :
    Machine.StepFn (PsaAeadOperation κ) (AeadCall × AeadEnv κ) AeadObservation :=
  fun operation a =>
    let r := aeadCall a.2 operation a.1
    some (r.operation, { status := r.status, log := r.log })

end TfPsaCrypto
