import TfPsaCrypto.Core.KeyPolicy
import TfPsaCrypto.Library.Bytes
import TfPsaCrypto.Library.Machine

/-!
# Multipart hash, XOF, MAC and cipher operations

The entry points of `psa_crypto.c` on these operations, with their driver calls. Output buffers
are sizes.
-/

namespace TfPsaCrypto

open Bytes

/-! ## Environment and results -/

structure MultipartEnv where
  /-- `psa_get_and_lock_key_slot_with_policy`: the attributes of the key. -/
  keySlot : Except PsaError PsaKeyAttributes
  /-- `psa_unregister_read_under_mutex` on a slot. -/
  unregister : PsaStatus
  /-- The identifier that the wrapper records when the driver's setup succeeds. -/
  driverId : Nat
  driverId_ne_zero : driverId ≠ 0
  /-- The one driver call that an entry point makes besides the abort. -/
  driver : PsaStatus
  driverAbort : PsaStatus
  /-- What the driver's finish writes to the buffer of `psa_hash_verify`. -/
  actualHash : ByteString
  random : PsaStatus
  /-- Allocation of the local copies of the input and output buffers. -/
  inputCalloc : Bool
  outputCalloc : Bool

structure MultipartEvent (χ : Type*) where
  call : χ
  status : PsaStatus
  deriving DecidableEq, Repr

inductive KeySlotEvent where
  | registerRead
  | unregisterRead
  deriving DecidableEq, Repr

/-- The result of an entry point: `σ` is the type of operations, `χ` that of driver
calls. `readers` is what the call did to the readers of the key slot. -/
structure MultipartResult (σ χ : Type*) where
  status : PsaStatus
  operation : σ
  log : List (MultipartEvent χ)
  readers : List KeySlotEvent := []

section Exit

variable {σ χ : Type*}

/-- The `exit` label of most entry points: abort unless the status is success. -/
def multipartExit (abort : σ → MultipartResult σ χ) (operation : σ)
    (log : List (MultipartEvent χ)) (status : PsaStatus) : MultipartResult σ χ :=
  if status ≠ .success then
    { status := status, operation := (abort operation).operation
      log := log ++ (abort operation).log }
  else
    { status := status, operation := operation, log := log }

def MultipartResult.unlock (r : MultipartResult σ χ) (env : MultipartEnv) :
    MultipartResult σ χ :=
  { r with
      status := if r.status = .success then env.unregister else r.status
      readers := [.registerRead, .unregisterRead] }

def MultipartEnv.setupId (env : MultipartEnv) (id : Nat) : Nat :=
  if env.driver = .success then env.driverId else id

end Exit

/-! ## Hash -/

def psaAlgIsHash (alg : PsaAlgorithm) : Bool := alg &&& psaAlgCategoryMask = psaAlgCategoryHash

/-- Where SHA-512 is enabled. -/
def psaHashMaxSize : Nat := 64

structure PsaHashOperation where
  id : Nat
  deriving DecidableEq, Repr

def PsaHashOperation.init : PsaHashOperation := { id := 0 }

/-- `clone` is a call with this operation as the source, `cloned` the same call for the
operation that is its target. -/
inductive HashDriverCall where
  | setup (alg : PsaAlgorithm)
  | update (input : ByteString)
  | finish (hashSize : Nat)
  | clone
  | cloned
  | abort
  deriving DecidableEq, Repr

section Hash

variable (env : MultipartEnv) (operation : PsaHashOperation)

def psaHashAbort : MultipartResult PsaHashOperation HashDriverCall :=
  if operation.id = 0 then
    { status := .success, operation := operation, log := [] }
  else
    { status := env.driverAbort, operation := { operation with id := 0 }
      log := [{ call := .abort, status := env.driverAbort }] }

def psaHashSetup (alg : PsaAlgorithm) : MultipartResult PsaHashOperation HashDriverCall :=
  if operation.id ≠ 0 then
    multipartExit (psaHashAbort env) operation [] .errorBadState
  else if psaAlgIsHash alg = false then
    multipartExit (psaHashAbort env) operation [] .errorInvalidArgument
  else
    multipartExit (psaHashAbort env) { operation with id := env.setupId operation.id }
      [{ call := .setup alg, status := env.driver }] env.driver

def psaHashUpdate (input : ByteString) : MultipartResult PsaHashOperation HashDriverCall :=
  if operation.id = 0 then
    multipartExit (psaHashAbort env) operation [] .errorBadState
  else if input.length = 0 then
    { status := .success, operation := operation, log := [] }
  else if psaCryptoLocalAlloc env.inputCalloc input.length ≠ .success then
    multipartExit (psaHashAbort env) operation [] (psaCryptoLocalAlloc env.inputCalloc input.length)
  else
    multipartExit (psaHashAbort env) operation
      [{ call := .update input, status := env.driver }] env.driver

def psaHashFinishInternal (hashSize : Nat) :
    MultipartResult PsaHashOperation HashDriverCall :=
  if operation.id = 0 then
    { status := .errorBadState, operation := operation, log := [] }
  else
    { status := env.driver, operation := (psaHashAbort env operation).operation
      log := [{ call := .finish hashSize, status := env.driver }] ++
        (psaHashAbort env operation).log }

/-- Where a failed local copy of the output buffer aborts nothing. -/
def psaHashFinish (hashSize : Nat) : MultipartResult PsaHashOperation HashDriverCall :=
  if psaCryptoLocalAlloc env.outputCalloc hashSize ≠ .success then
    { status := psaCryptoLocalAlloc env.outputCalloc hashSize, operation := operation
      log := [] }
  else
    psaHashFinishInternal env operation hashSize

def psaHashVerify (hash : ByteString) : MultipartResult PsaHashOperation HashDriverCall :=
  let finish := psaHashFinishInternal env operation psaHashMaxSize
  let exit := multipartExit (psaHashAbort env) finish.operation finish.log
  if finish.status ≠ .success then
    exit finish.status
  else if env.actualHash.length ≠ hash.length then
    exit .errorInvalidSignature
  else if psaCryptoLocalAlloc env.inputCalloc hash.length ≠ .success then
    exit (psaCryptoLocalAlloc env.inputCalloc hash.length)
  else if hash ≠ env.actualHash then
    exit .errorInvalidSignature
  else
    exit .success

/-- The wrapper records the identifier before it calls the driver. -/
def psaHashClone (source target : PsaHashOperation) :
    MultipartResult PsaHashOperation HashDriverCall :=
  if source.id = 0 ∨ target.id ≠ 0 then
    { status := .errorBadState, operation := target, log := [] }
  else
    multipartExit (psaHashAbort env) { target with id := source.id }
      [{ call := .cloned, status := env.driver }] env.driver

def psaHashCloneSource (source target : PsaHashOperation) :
    MultipartResult PsaHashOperation HashDriverCall :=
  { status := (psaHashClone env source target).status, operation := source
    log :=
      if source.id = 0 ∨ target.id ≠ 0 then []
      else [{ call := .clone, status := env.driver }] }

end Hash

/-- The calls an application makes on one operation. The other operation of a clone may
be any. -/
inductive HashCall where
  | setup (alg : PsaAlgorithm)
  | update (input : ByteString)
  | finish (hashSize : Nat)
  | verify (hash : ByteString)
  | cloneTo (target : PsaHashOperation)
  | cloneFrom (source : PsaHashOperation)
  | abort

def hashCall (env : MultipartEnv) (operation : PsaHashOperation) :
    HashCall → MultipartResult PsaHashOperation HashDriverCall
  | .setup alg => psaHashSetup env operation alg
  | .update input => psaHashUpdate env operation input
  | .finish hashSize => psaHashFinish env operation hashSize
  | .verify hash => psaHashVerify env operation hash
  | .cloneTo target => psaHashCloneSource env operation target
  | .cloneFrom source => psaHashClone env source operation
  | .abort => psaHashAbort env operation

/-! ## XOF -/

def psaAlgCategoryXof : PsaAlgorithm := 0x0d000000
def psaAlgXofContextFlag : PsaAlgorithm := 0x00008000

def psaAlgIsXof (alg : PsaAlgorithm) : Bool := alg &&& psaAlgCategoryMask = psaAlgCategoryXof

def psaAlgXofHasContext (xofAlg : PsaAlgorithm) : Bool := xofAlg &&& psaAlgXofContextFlag ≠ 0

structure PsaXofOperation where
  id : Nat
  requiresContext : Bool
  allowsContext : Bool
  active : Bool
  hasContext : Bool
  hasInput : Bool
  hasOutput : Bool
  deriving DecidableEq, Repr

def PsaXofOperation.init : PsaXofOperation :=
  { id := 0, requiresContext := false, allowsContext := false, active := false
    hasContext := false, hasInput := false, hasOutput := false }

inductive XofDriverCall where
  | setup (alg : PsaAlgorithm)
  | setContext (context : ByteString)
  | update (input : ByteString)
  | output (outputLength : Nat)
  | abort
  deriving DecidableEq, Repr

section Xof

variable (env : MultipartEnv) (operation : PsaXofOperation)

def psaXofAbort : MultipartResult PsaXofOperation XofDriverCall :=
  if operation.id = 0 then
    { status := .success, operation := operation, log := [] }
  else
    { status := env.driverAbort, operation := .init
      log := [{ call := .abort, status := env.driverAbort }] }

def psaXofSetup (alg : PsaAlgorithm) : MultipartResult PsaXofOperation XofDriverCall :=
  if operation.id ≠ 0 then
    multipartExit (psaXofAbort env) operation [] .errorBadState
  else if psaAlgIsXof alg = false then
    multipartExit (psaXofAbort env) operation [] .errorInvalidArgument
  else
    let operation := { operation with id := env.setupId operation.id }
    let log := [{ call := .setup alg, status := env.driver }]
    if env.driver = .success then
      { status := .success
        operation :=
          { operation with
              active := true
              allowsContext := psaAlgXofHasContext alg || operation.allowsContext
              requiresContext := psaAlgXofHasContext alg || operation.requiresContext }
        log := log }
    else
      multipartExit (psaXofAbort env) operation log env.driver

/-- The checks return without an abort. -/
def psaXofSetContext (context : ByteString) :
    MultipartResult PsaXofOperation XofDriverCall :=
  if operation.id = 0 ∨ operation.active = false ∨ operation.allowsContext = false ∨
      operation.hasContext ∨ operation.hasInput ∨ operation.hasOutput then
    { status := .errorBadState, operation := operation, log := [] }
  else
    let operation := { operation with hasContext := true }
    if psaCryptoLocalAlloc env.inputCalloc context.length ≠ .success then
      multipartExit (psaXofAbort env) operation []
        (psaCryptoLocalAlloc env.inputCalloc context.length)
    else
      multipartExit (psaXofAbort env) operation
        [{ call := .setContext context, status := env.driver }] env.driver

/-- The checks return without an abort. -/
def psaXofUpdate (input : ByteString) : MultipartResult PsaXofOperation XofDriverCall :=
  if operation.id = 0 ∨ operation.active = false ∨
      (operation.hasContext = false ∧ operation.requiresContext) ∨ operation.hasOutput then
    { status := .errorBadState, operation := operation, log := [] }
  else
    let operation := { operation with hasInput := true }
    if input.length = 0 then
      { status := .success, operation := operation, log := [] }
    else if psaCryptoLocalAlloc env.inputCalloc input.length ≠ .success then
      multipartExit (psaXofAbort env) operation []
        (psaCryptoLocalAlloc env.inputCalloc input.length)
    else
      multipartExit (psaXofAbort env) operation
        [{ call := .update input, status := env.driver }] env.driver

/-- The checks return without an abort. -/
def psaXofOutput (outputLength : Nat) : MultipartResult PsaXofOperation XofDriverCall :=
  if operation.id = 0 ∨ operation.active = false ∨
      (operation.hasContext = false ∧ operation.requiresContext) then
    { status := .errorBadState, operation := operation, log := [] }
  else
    let operation := { operation with hasOutput := true }
    if outputLength = 0 then
      { status := .success, operation := operation, log := [] }
    else if psaCryptoLocalAlloc env.outputCalloc outputLength ≠ .success then
      multipartExit (psaXofAbort env) operation []
        (psaCryptoLocalAlloc env.outputCalloc outputLength)
    else
      multipartExit (psaXofAbort env) operation
        [{ call := .output outputLength, status := env.driver }] env.driver

end Xof

inductive XofCall where
  | setup (alg : PsaAlgorithm)
  | setContext (context : ByteString)
  | update (input : ByteString)
  | output (outputLength : Nat)
  | abort

def xofCall (env : MultipartEnv) (operation : PsaXofOperation) :
    XofCall → MultipartResult PsaXofOperation XofDriverCall
  | .setup alg => psaXofSetup env operation alg
  | .setContext context => psaXofSetContext env operation context
  | .update input => psaXofUpdate env operation input
  | .output outputLength => psaXofOutput env operation outputLength
  | .abort => psaXofAbort env operation

/-! ## MAC -/

/-- Where HMAC with SHA-512 is enabled. -/
def psaMacMaxSize : Nat := 64

structure PsaMacOperation where
  id : Nat
  macSize : Nat
  isSign : Bool
  deriving DecidableEq, Repr

def PsaMacOperation.init : PsaMacOperation := { id := 0, macSize := 0, isSign := false }

inductive MacDriverCall where
  | setup (isSign : Bool) (attributes : PsaKeyAttributes) (alg : PsaAlgorithm)
  | update (input : ByteString)
  | signFinish (macSize : Nat)
  | verifyFinish (mac : ByteString)
  | abort
  deriving DecidableEq, Repr

def psaMacFinalizeAlgAndKeyValidation (alg : PsaAlgorithm) (attributes : PsaKeyAttributes)
    (macSize : Nat) : PsaStatus × Nat :=
  let keyType := attributes.type
  if psaAlgIsMac alg = false then
    (.errorInvalidArgument, macSize)
  else if psaMacKeyCanDo alg keyType ≠ .success then
    (psaMacKeyCanDo alg keyType, macSize)
  else
    -- `mac_size` is a byte
    let macSize := psaMacLength keyType alg % 2 ^ 8
    if macSize < 4 then
      (.errorNotSupported, macSize)
    else if macSize > psaMacLength keyType (psaAlgFullLengthMac alg) then
      (.errorInvalidArgument, macSize)
    else if macSize > psaMacMaxSize then
      (.errorNotSupported, macSize)
    else
      (.success, macSize)

section Mac

variable (env : MultipartEnv) (operation : PsaMacOperation)

def psaMacAbort : MultipartResult PsaMacOperation MacDriverCall :=
  if operation.id = 0 then
    { status := .success, operation := operation, log := [] }
  else
    { status := env.driverAbort, operation := .init
      log := [{ call := .abort, status := env.driverAbort }] }

def psaMacSetup (isSign : Bool) (alg : PsaAlgorithm) :
    MultipartResult PsaMacOperation MacDriverCall :=
  if operation.id ≠ 0 then
    multipartExit (psaMacAbort env) operation [] .errorBadState
  else
    match env.keySlot with
    | .error e => multipartExit (psaMacAbort env) operation [] e.status
    | .ok attributes =>
      let (status, macSize) := psaMacFinalizeAlgAndKeyValidation alg attributes operation.macSize
      let operation := { operation with macSize := macSize }
      if status ≠ .success then
        (multipartExit (psaMacAbort env) operation [] status).unlock env
      else
        (multipartExit (psaMacAbort env)
          { operation with isSign := isSign, id := env.setupId operation.id }
          [{ call := .setup isSign attributes alg, status := env.driver }]
          env.driver).unlock env

/-- Where a failed local copy of the input goes past the abort. -/
def psaMacUpdate (input : ByteString) : MultipartResult PsaMacOperation MacDriverCall :=
  if operation.id = 0 then
    { status := .errorBadState, operation := operation, log := [] }
  else if input.length = 0 then
    { status := .success, operation := operation, log := [] }
  else if psaCryptoLocalAlloc env.inputCalloc input.length ≠ .success then
    { status := psaCryptoLocalAlloc env.inputCalloc input.length, operation := operation
      log := [] }
  else
    multipartExit (psaMacAbort env) operation
      [{ call := .update input, status := env.driver }] env.driver

def psaMacFinishExit (log : List (MultipartEvent MacDriverCall)) (status : PsaStatus) :
    MultipartResult PsaMacOperation MacDriverCall :=
  let abort := psaMacAbort env operation
  { status := if status = .success then abort.status else status
    operation := abort.operation, log := log ++ abort.log }

def psaMacSignFinish (macSize : Nat) : MultipartResult PsaMacOperation MacDriverCall :=
  let exit (log : List (MultipartEvent MacDriverCall)) (status : PsaStatus) :=
    psaMacFinishExit env
      (if status ≠ .success then { operation with macSize := 0 } else operation) log status
  if psaCryptoLocalAlloc env.outputCalloc macSize ≠ .success then
    exit [] (psaCryptoLocalAlloc env.outputCalloc macSize)
  else if operation.id = 0 then
    exit [] .errorBadState
  else if operation.isSign = false then
    exit [] .errorBadState
  else if operation.macSize = 0 then
    exit [] .errorBadState
  else if macSize < operation.macSize then
    exit [] .errorBufferTooSmall
  else
    exit [{ call := .signFinish operation.macSize, status := env.driver }] env.driver

def psaMacVerifyFinish (mac : ByteString) : MultipartResult PsaMacOperation MacDriverCall :=
  if operation.id = 0 then
    psaMacFinishExit env operation [] .errorBadState
  else if operation.isSign then
    psaMacFinishExit env operation [] .errorBadState
  else if operation.macSize ≠ mac.length then
    psaMacFinishExit env operation [] .errorInvalidSignature
  else if psaCryptoLocalAlloc env.inputCalloc mac.length ≠ .success then
    psaMacFinishExit env operation [] (psaCryptoLocalAlloc env.inputCalloc mac.length)
  else
    psaMacFinishExit env operation [{ call := .verifyFinish mac, status := env.driver }] env.driver

end Mac

inductive MacCall where
  | signSetup (alg : PsaAlgorithm)
  | verifySetup (alg : PsaAlgorithm)
  | update (input : ByteString)
  | signFinish (macSize : Nat)
  | verifyFinish (mac : ByteString)
  | abort

def macCall (env : MultipartEnv) (operation : PsaMacOperation) :
    MacCall → MultipartResult PsaMacOperation MacDriverCall
  | .signSetup alg => psaMacSetup env operation true alg
  | .verifySetup alg => psaMacSetup env operation false alg
  | .update input => psaMacUpdate env operation input
  | .signFinish macSize => psaMacSignFinish env operation macSize
  | .verifyFinish mac => psaMacVerifyFinish env operation mac
  | .abort => psaMacAbort env operation

/-! ## Cipher -/

def psaAlgCategoryCipher : PsaAlgorithm := 0x04000000
def psaAlgStreamCipher : PsaAlgorithm := 0x04800100
def psaAlgCtr : PsaAlgorithm := 0x04c01000
def psaAlgCfb : PsaAlgorithm := 0x04c01100
def psaAlgOfb : PsaAlgorithm := 0x04c01200
def psaAlgXts : PsaAlgorithm := 0x0440ff00
def psaAlgEcbNoPadding : PsaAlgorithm := 0x04404400
def psaAlgCbcNoPadding : PsaAlgorithm := 0x04404000
def psaAlgCbcPkcs7 : PsaAlgorithm := 0x04404100
def psaAlgCcmStarNoTag : PsaAlgorithm := 0x04c01300

def psaAlgIsCipher (alg : PsaAlgorithm) : Bool := alg &&& psaAlgCategoryMask = psaAlgCategoryCipher

def psaCipherIvLength (keyType : PsaKeyType) (alg : PsaAlgorithm) : Nat :=
  if psaBlockCipherBlockLength keyType > 1 ∧
      (alg = psaAlgCtr ∨ alg = psaAlgCfb ∨ alg = psaAlgOfb ∨ alg = psaAlgXts ∨
        alg = psaAlgCbcNoPadding ∨ alg = psaAlgCbcPkcs7) then
    psaBlockCipherBlockLength keyType
  else if keyType = psaKeyTypeChacha20 ∧ alg = psaAlgStreamCipher then 12
  else if alg = psaAlgCcmStarNoTag then 13
  else 0

def psaCipherIvMaxSize : Nat := 16

structure PsaCipherOperation where
  id : Nat
  ivRequired : Bool
  ivSet : Bool
  defaultIvLength : Nat
  deriving DecidableEq, Repr

def PsaCipherOperation.init : PsaCipherOperation :=
  { id := 0, ivRequired := false, ivSet := false, defaultIvLength := 0 }

inductive CipherDriverCall where
  | setup (encrypt : Bool) (attributes : PsaKeyAttributes) (alg : PsaAlgorithm)
  | setIv (iv : ByteString)
  | update (input : ByteString) (outputSize : Nat)
  | finish (outputSize : Nat)
  | abort
  deriving DecidableEq, Repr

section Cipher

variable (env : MultipartEnv) (operation : PsaCipherOperation)

def psaCipherAbort : MultipartResult PsaCipherOperation CipherDriverCall :=
  if operation.id = 0 then
    { status := .success, operation := operation, log := [] }
  else
    { status := .success
      operation := { operation with id := 0, ivSet := false, ivRequired := false }
      log := [{ call := .abort, status := env.driverAbort }] }

def psaCipherSetup (encrypt : Bool) (alg : PsaAlgorithm) :
    MultipartResult PsaCipherOperation CipherDriverCall :=
  if operation.id ≠ 0 then
    multipartExit (psaCipherAbort env) operation [] .errorBadState
  else if psaAlgIsCipher alg = false then
    multipartExit (psaCipherAbort env) operation [] .errorInvalidArgument
  else
    match env.keySlot with
    | .error e => multipartExit (psaCipherAbort env) operation [] e.status
    | .ok attributes =>
      (multipartExit (psaCipherAbort env)
        { id := env.setupId operation.id
          ivSet := false
          ivRequired := decide (alg ≠ psaAlgEcbNoPadding)
          -- `default_iv_length` is a byte
          defaultIvLength := psaCipherIvLength attributes.type alg % 2 ^ 8 }
        [{ call := .setup encrypt attributes alg, status := env.driver }]
        env.driver).unlock env

/-- The last part of `psa_cipher_generate_iv` and `psa_cipher_set_iv`. -/
def psaCipherIvExit (log : List (MultipartEvent CipherDriverCall)) (status : PsaStatus) :
    MultipartResult PsaCipherOperation CipherDriverCall :=
  if status = .success then
    { status := status, operation := { operation with ivSet := true }, log := log }
  else
    multipartExit (psaCipherAbort env) operation log status

/-- Where the generator returns `randomIv`. -/
def psaCipherGenerateIv (ivSize : Nat) (randomIv : Nat → ByteString) :
    MultipartResult PsaCipherOperation CipherDriverCall :=
  if operation.id = 0 then
    psaCipherIvExit env operation [] .errorBadState
  else if operation.ivSet ∨ operation.ivRequired = false then
    psaCipherIvExit env operation [] .errorBadState
  else if ivSize < operation.defaultIvLength then
    psaCipherIvExit env operation [] .errorBufferTooSmall
  else if operation.defaultIvLength > psaCipherIvMaxSize then
    psaCipherIvExit env operation [] .errorGenericError
  else if psaCryptoLocalAlloc env.outputCalloc operation.defaultIvLength ≠ .success then
    psaCipherIvExit env operation []
      (psaCryptoLocalAlloc env.outputCalloc operation.defaultIvLength)
  else if env.random ≠ .success then
    psaCipherIvExit env operation [] env.random
  else
    psaCipherIvExit env operation
      [{ call := .setIv (randomIv operation.defaultIvLength), status := env.driver }]
      env.driver

def psaCipherSetIv (iv : ByteString) :
    MultipartResult PsaCipherOperation CipherDriverCall :=
  if operation.id = 0 then
    psaCipherIvExit env operation [] .errorBadState
  else if operation.ivSet ∨ operation.ivRequired = false then
    psaCipherIvExit env operation [] .errorBadState
  else if iv.length > psaCipherIvMaxSize then
    psaCipherIvExit env operation [] .errorInvalidArgument
  else if psaCryptoLocalAlloc env.inputCalloc iv.length ≠ .success then
    psaCipherIvExit env operation [] (psaCryptoLocalAlloc env.inputCalloc iv.length)
  else
    psaCipherIvExit env operation [{ call := .setIv iv, status := env.driver }] env.driver

def psaCipherUpdate (input : ByteString) (outputSize : Nat) :
    MultipartResult PsaCipherOperation CipherDriverCall :=
  if operation.id = 0 then
    multipartExit (psaCipherAbort env) operation [] .errorBadState
  else if operation.ivRequired ∧ operation.ivSet = false then
    multipartExit (psaCipherAbort env) operation [] .errorBadState
  else if psaCryptoLocalAlloc env.inputCalloc input.length ≠ .success then
    multipartExit (psaCipherAbort env) operation []
      (psaCryptoLocalAlloc env.inputCalloc input.length)
  else if psaCryptoLocalAlloc env.outputCalloc outputSize ≠ .success then
    multipartExit (psaCipherAbort env) operation []
      (psaCryptoLocalAlloc env.outputCalloc outputSize)
  else
    multipartExit (psaCipherAbort env) operation
      [{ call := .update input outputSize, status := env.driver }] env.driver

/-- The end of `psa_cipher_finish`: the operation is aborted in any case. -/
def psaCipherFinishExit (log : List (MultipartEvent CipherDriverCall))
    (status : PsaStatus) : MultipartResult PsaCipherOperation CipherDriverCall :=
  let abort := psaCipherAbort env operation
  { status := if abort.status ≠ .success then abort.status else status
    operation := abort.operation, log := log ++ abort.log }

def psaCipherFinish (outputSize : Nat) :
    MultipartResult PsaCipherOperation CipherDriverCall :=
  if operation.id = 0 then
    psaCipherFinishExit env operation [] .errorBadState
  else if operation.ivRequired ∧ operation.ivSet = false then
    psaCipherFinishExit env operation [] .errorBadState
  else if psaCryptoLocalAlloc env.outputCalloc outputSize ≠ .success then
    psaCipherFinishExit env operation [] (psaCryptoLocalAlloc env.outputCalloc outputSize)
  else
    psaCipherFinishExit env operation
      [{ call := .finish outputSize, status := env.driver }] env.driver

end Cipher

inductive CipherCall where
  | encryptSetup (alg : PsaAlgorithm)
  | decryptSetup (alg : PsaAlgorithm)
  | generateIv (ivSize : Nat) (randomIv : Nat → ByteString)
  | setIv (iv : ByteString)
  | update (input : ByteString) (outputSize : Nat)
  | finish (outputSize : Nat)
  | abort

def cipherCall (env : MultipartEnv) (operation : PsaCipherOperation) :
    CipherCall → MultipartResult PsaCipherOperation CipherDriverCall
  | .encryptSetup alg => psaCipherSetup env operation true alg
  | .decryptSetup alg => psaCipherSetup env operation false alg
  | .generateIv ivSize randomIv => psaCipherGenerateIv env operation ivSize randomIv
  | .setIv iv => psaCipherSetIv env operation iv
  | .update input outputSize => psaCipherUpdate env operation input outputSize
  | .finish outputSize => psaCipherFinish env operation outputSize
  | .abort => psaCipherAbort env operation

/-! ## Sequences of calls -/

structure MultipartObservation (χ : Type*) where
  status : PsaStatus
  log : List (MultipartEvent χ)
  readers : List KeySlotEvent
  deriving DecidableEq, Repr

def multipartMachine {σ χ α : Type*} (call : MultipartEnv → σ → α → MultipartResult σ χ) :
    Machine.StepFn σ (α × MultipartEnv) (MultipartObservation χ) :=
  fun operation a =>
    let r := call a.2 operation a.1
    some (r.operation, { status := r.status, log := r.log, readers := r.readers })

end TfPsaCrypto
