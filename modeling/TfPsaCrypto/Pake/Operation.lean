import TfPsaCrypto.Core.Algorithm
import TfPsaCrypto.Library.Bytes
import TfPsaCrypto.Library.Machine

/-!
# PAKE operations

The entry points of `psa_crypto.c` on a `psa_pake_operation_t`, with their driver calls.
-/

namespace TfPsaCrypto

open Bytes

/-! ## Cipher suites, steps and rounds -/

def psaAlgCategoryPake : PsaAlgorithm := 0x0a000000

def psaAlgIsPake (alg : PsaAlgorithm) : Bool := alg &&& psaAlgCategoryMask = psaAlgCategoryPake

abbrev PsaPakePrimitive := BitVec 32

structure PsaPakeCipherSuite where
  algorithm : PsaAlgorithm
  type : BitVec 8
  family : BitVec 8
  bits : BitVec 16
  keyConfirmation : BitVec 32
  deriving DecidableEq, Repr

/-- A 16-bit size always passes the range check of the macro. -/
def psaPakePrimitive (type family : BitVec 8) (bits : BitVec 16) : PsaPakePrimitive :=
  type.setWidth 32 <<< 24 ||| family.setWidth 32 <<< 16 ||| bits.setWidth 32

/-- Any byte may be passed. -/
abbrev PsaPakeStep := BitVec 8

def psaPakeStepKeyShare : PsaPakeStep := 0x01
def psaPakeStepZkPublic : PsaPakeStep := 0x02
def psaPakeStepZkProof : PsaPakeStep := 0x03

def psaPakeRoleNone : BitVec 8 := 0x00

def psaPakeInputSize (alg : PsaAlgorithm) (primitive : PsaPakePrimitive)
    (inputStep : PsaPakeStep) : Nat :=
  if psaAlgIsJpake alg ∧ primitive = psaPakePrimitive 0x01 0x12 256 then
    if inputStep = psaPakeStepKeyShare then 65
    else if inputStep = psaPakeStepZkPublic then 65
    else 32
  else 0

inductive PsaCryptoDriverPakeStep where
  | invalid
  | x1KeyShare | x1ZkPublic | x1ZkProof
  | x2KeyShare | x2ZkPublic | x2ZkProof
  | x2sKeyShare | x2sZkPublic | x2sZkProof
  | x4sKeyShare | x4sZkPublic | x4sZkProof
  deriving DecidableEq, Repr

def PsaCryptoDriverPakeStep.code : PsaCryptoDriverPakeStep → Nat
  | invalid => 0
  | x1KeyShare => 1
  | x1ZkPublic => 2
  | x1ZkProof => 3
  | x2KeyShare => 4
  | x2ZkPublic => 5
  | x2ZkProof => 6
  | x2sKeyShare => 7
  | x2sZkPublic => 8
  | x2sZkProof => 9
  | x4sKeyShare => 10
  | x4sZkPublic => 11
  | x4sZkProof => 12

def PsaCryptoDriverPakeStep.ofCode : Nat → PsaCryptoDriverPakeStep
  | 1 => x1KeyShare
  | 2 => x1ZkPublic
  | 3 => x1ZkProof
  | 4 => x2KeyShare
  | 5 => x2ZkPublic
  | 6 => x2ZkProof
  | 7 => x2sKeyShare
  | 8 => x2sZkPublic
  | 9 => x2sZkProof
  | 10 => x4sKeyShare
  | 11 => x4sZkPublic
  | 12 => x4sZkProof
  | _ => invalid

inductive PsaJpakeRound where
  | first
  | second
  | finished
  deriving DecidableEq, Repr

/-- `round++`. No step is accepted in the last round, which is never left. -/
def PsaJpakeRound.next : PsaJpakeRound → PsaJpakeRound
  | first => second
  | second => finished
  | finished => finished

inductive PsaJpakeIoMode where
  | input
  | output
  deriving DecidableEq, Repr

structure PsaJpakeComputationStage where
  round : PsaJpakeRound
  ioMode : PsaJpakeIoMode
  inputs : Nat
  outputs : Nat
  step : PsaPakeStep
  deriving DecidableEq, Repr

def PsaJpakeComputationStage.zero : PsaJpakeComputationStage :=
  { round := .first, ioMode := .input, inputs := 0, outputs := 0, step := 0 }

def psaJpakeExpectedInputs : PsaJpakeRound → Nat
  | .finished => 0
  | .first => 2
  | .second => 1

def psaJpakeExpectedOutputs : PsaJpakeRound → Nat
  | .finished => 0
  | .first => 2
  | .second => 1

def convertJpakeComputationStageToDriverStep (stage : PsaJpakeComputationStage) :
    PsaCryptoDriverPakeStep :=
  let fromKeyShare (keyShareStep : PsaCryptoDriverPakeStep) :=
    PsaCryptoDriverPakeStep.ofCode
      (keyShareStep.code + stage.step.toNat - psaPakeStepKeyShare.toNat)
  match stage.round with
  | .first =>
    let isX1 :=
      match stage.ioMode with
      | .output => decide (stage.outputs < 1)
      | .input => decide (stage.inputs < 1)
    fromKeyShare (if isX1 then .x1KeyShare else .x2KeyShare)
  | .second =>
    fromKeyShare (if stage.ioMode = .output then .x2sKeyShare else .x4sKeyShare)
  | .finished => .invalid

/-- The status, and the stage with the mode of the round where it is set. -/
def psaJpakePrologue (stage : PsaJpakeComputationStage) (step : PsaPakeStep)
    (ioMode : PsaJpakeIoMode) : PsaStatus × PsaJpakeComputationStage :=
  if step ≠ psaPakeStepKeyShare ∧ step ≠ psaPakeStepZkPublic ∧
      step ≠ psaPakeStepZkProof then
    (.errorInvalidArgument, stage)
  else if stage.round ≠ .first ∧ stage.round ≠ .second then
    (.errorBadState, stage)
  else if step ≠ stage.step then
    (.errorBadState, stage)
  else if step = psaPakeStepKeyShare ∧ stage.inputs = 0 ∧ stage.outputs = 0 then
    (.success, { stage with ioMode := ioMode })
  else if stage.ioMode ≠ ioMode then
    (.errorBadState, stage)
  else
    (.success, stage)

def PsaJpakeComputationStage.complete (stage : PsaJpakeComputationStage) :
    PsaJpakeIoMode → PsaJpakeComputationStage
  | .input =>
    { stage with
        inputs := stage.inputs + 1
        ioMode := if stage.inputs + 1 = psaJpakeExpectedInputs stage.round
          then .output else stage.ioMode }
  | .output =>
    { stage with
        outputs := stage.outputs + 1
        ioMode := if stage.outputs + 1 = psaJpakeExpectedOutputs stage.round
          then .input else stage.ioMode }

/-- It always succeeds. -/
def psaJpakeEpilogue (stage : PsaJpakeComputationStage) (ioMode : PsaJpakeIoMode) :
    PsaJpakeComputationStage :=
  if stage.step = psaPakeStepZkProof then
    let stage := stage.complete ioMode
    if stage.inputs = psaJpakeExpectedInputs stage.round ∧
        stage.outputs = psaJpakeExpectedOutputs stage.round then
      { stage with
          inputs := 0
          outputs := 0
          round := stage.round.next
          step := psaPakeStepKeyShare }
    else
      { stage with step := psaPakeStepKeyShare }
  else
    { stage with step := stage.step + 1 }

/-! ## State, driver calls and environment -/

/-- `psa_crypto_driver_pake_inputs_t`. An input of length zero is one that has not
been given. -/
structure PsaCryptoDriverPakeInputs where
  password : ByteString
  user : ByteString
  peer : ByteString
  attributes : PsaKeyAttributes
  cipherSuite : PsaPakeCipherSuite
  deriving DecidableEq, Repr

def PsaCryptoDriverPakeInputs.zero : PsaCryptoDriverPakeInputs :=
  { password := [], user := [], peer := [], attributes := psaKeyAttributesInit
    cipherSuite :=
      { algorithm := 0, type := 0, family := 0, bits := 0, keyConfirmation := 0 } }

inductive PsaPakeOperationStage where
  | setup
  | collectInputs
  | computation
  deriving DecidableEq, Repr

structure PsaPakeOperation where
  alg : PsaAlgorithm
  primitive : PsaPakePrimitive
  stage : PsaPakeOperationStage
  computationStage : PsaJpakeComputationStage
  inputs : PsaCryptoDriverPakeInputs
  deriving DecidableEq, Repr

def PsaPakeOperation.init : PsaPakeOperation :=
  { alg := 0, primitive := 0, stage := .setup, computationStage := .zero
    inputs := .zero }

inductive PakeDriverCall where
  | setup (inputs : PsaCryptoDriverPakeInputs)
  | output (step : PsaCryptoDriverPakeStep) (outputSize : Nat)
  | input (step : PsaCryptoDriverPakeStep) (input : ByteString)
  | getSharedKey
  | abort
  deriving DecidableEq, Repr

structure PakeDriverEvent where
  call : PakeDriverCall
  status : PsaStatus
  deriving DecidableEq, Repr

structure PakeEnv where
  /-- `psa_get_and_lock_key_slot_with_policy`: attributes and data of the key. -/
  keySlot : Except PsaError (PsaKeyAttributes × ByteString)
  /-- `psa_unregister_read_under_mutex`. -/
  unregister : PsaStatus
  /-- Allocation of the operation's own copy of an input. -/
  calloc : Bool
  /-- Allocation of the local copies of the input and output buffers. -/
  localCalloc : Bool
  driverSetup : PsaStatus
  /-- The driver call of every other entry point. -/
  driver : PsaStatus
  driverAbort : PsaStatus
  /-- `psa_import_key` on the shared key: the identifier of the new key. -/
  importKey : Except PsaError PsaKeyId

/-- The result of an entry point. `key` is what `psa_pake_get_shared_key` writes
to its output parameter. -/
structure PakeResult where
  status : PsaStatus
  operation : PsaPakeOperation
  log : List PakeDriverEvent
  key : Option PsaKeyId

/-! ## Entry points -/

section EntryPoints

variable (env : PakeEnv) (operation : PsaPakeOperation)

def psaPakeAbort : PakeResult :=
  if operation.stage = .computation then
    { status := env.driverAbort
      operation := .init
      log := [{ call := .abort, status := env.driverAbort }]
      key := none }
  else
    { status := .success, operation := .init, log := [], key := none }

/-- The `exit` label of most entry points: abort unless the status is success. -/
def psaPakeExit (log : List PakeDriverEvent) (status : PsaStatus) : PakeResult :=
  if status ≠ .success then
    let abort := psaPakeAbort env operation
    { status := status, operation := abort.operation, log := log ++ abort.log
      key := none }
  else
    { status := status, operation := operation, log := log, key := none }

def psaPakeSetPasswordKey : PakeResult :=
  if operation.stage ≠ .collectInputs then
    psaPakeExit env operation [] .errorBadState
  else
    match env.keySlot with
    | .error e => psaPakeExit env operation [] e.status
    | .ok (attributes, data) =>
      if attributes.type ≠ 0x1203 ∧ attributes.type ≠ 0x1205 then
        -- neither PSA_KEY_TYPE_PASSWORD nor PSA_KEY_TYPE_PASSWORD_HASH
        psaPakeExit env operation [] .errorInvalidArgument
      else if env.calloc = false then
        psaPakeExit env operation [] .errorInsufficientMemory
      else
        -- the status of the unlock is returned, with no abort
        { status := env.unregister
          operation :=
            { operation with
                inputs :=
                  { operation.inputs with
                      password := data, attributes := attributes } }
          log := []
          key := none }

def psaPakeSetup (cipherSuite : PsaPakeCipherSuite) : PakeResult :=
  if operation.stage ≠ .setup then
    psaPakeExit env operation [] .errorBadState
  else if psaAlgIsPake cipherSuite.algorithm = false then
    psaPakeExit env operation [] .errorInvalidArgument
  else
    let operation :=
      { operation with
          alg := cipherSuite.algorithm
          primitive := psaPakePrimitive cipherSuite.type cipherSuite.family cipherSuite.bits
          inputs := { PsaCryptoDriverPakeInputs.zero with cipherSuite := cipherSuite } }
    if psaAlgIsJpake operation.alg then
      psaPakeSetPasswordKey env
        { operation with
            computationStage :=
              { PsaJpakeComputationStage.zero with step := psaPakeStepKeyShare }
            stage := .collectInputs }
    else
      psaPakeExit env operation [] .errorNotSupported

/-- `psa_pake_set_user` and `psa_pake_set_peer`, on the input that the call sets. -/
def psaPakeSetIdentity (current identity : ByteString)
    (set : PsaCryptoDriverPakeInputs → PsaCryptoDriverPakeInputs) : PakeResult :=
  if operation.stage ≠ .collectInputs then
    psaPakeExit env operation [] .errorBadState
  else if identity.length = 0 then
    psaPakeExit env operation [] .errorInvalidArgument
  else if current.length ≠ 0 then
    psaPakeExit env operation [] .errorBadState
  else if env.calloc = false then
    psaPakeExit env operation [] .errorInsufficientMemory
  else if psaCryptoLocalAlloc env.localCalloc identity.length ≠ .success then
    psaPakeExit env operation [] (psaCryptoLocalAlloc env.localCalloc identity.length)
  else
    psaPakeExit env { operation with inputs := set operation.inputs } [] .success

def psaPakeSetUser (userId : ByteString) : PakeResult :=
  psaPakeSetIdentity env operation operation.inputs.user userId
    fun inputs => { inputs with user := userId }

def psaPakeSetPeer (peerId : ByteString) : PakeResult :=
  psaPakeSetIdentity env operation operation.inputs.peer peerId
    fun inputs => { inputs with peer := peerId }

def psaPakeSetRole (role : BitVec 8) : PakeResult :=
  if operation.stage ≠ .collectInputs then
    psaPakeExit env operation [] .errorBadState
  else if psaAlgIsJpake operation.alg then
    if role = psaPakeRoleNone then
      { status := .success, operation := operation, log := [], key := none }
    else
      psaPakeExit env operation [] .errorInvalidArgument
  else
    psaPakeExit env operation [] .errorNotSupported

/-- It looks at none of its arguments. -/
def psaPakeSetContext : PakeResult :=
  { status := .errorNotSupported, operation := operation, log := [], key := none }

/-- It aborts nothing itself. -/
def psaPakeCompleteInputs : PakeResult :=
  let inputs := operation.inputs
  if inputs.password.length = 0 then
    { status := .errorBadState, operation := operation, log := [], key := none }
  else if psaAlgIsJpake operation.alg ∧
      (inputs.user.length = 0 ∨ inputs.peer.length = 0) then
    { status := .errorBadState, operation := operation, log := [], key := none }
  else
    let operation := { operation with inputs := .zero }
    let log := [{ call := .setup inputs, status := env.driverSetup }]
    if env.driverSetup ≠ .success then
      { status := env.driverSetup, operation := operation, log := log, key := none }
    else if psaAlgIsJpake operation.alg then
      { status := .success, operation := { operation with stage := .computation }
        log := log, key := none }
    else
      { status := .errorNotSupported, operation := operation, log := log
        key := none }

/-- `psa_pake_output` and `psa_pake_input` once the inputs are complete, after the calls `log`;
`sizeOk` checks the length, and `call` is the driver call for a step. -/
def psaPakeTransfer (log : List PakeDriverEvent) (step : PsaPakeStep)
    (ioMode : PsaJpakeIoMode) (sizeOk : Bool) (size : Nat)
    (call : PsaCryptoDriverPakeStep → PakeDriverCall) : PakeResult :=
  if operation.stage ≠ .computation then
    psaPakeExit env operation log .errorBadState
  else if sizeOk = false then
    psaPakeExit env operation log .errorInvalidArgument
  else if psaAlgIsJpake operation.alg then
    let (prologue, stage) := psaJpakePrologue operation.computationStage step ioMode
    let operation := { operation with computationStage := stage }
    if prologue ≠ .success then
      psaPakeExit env operation log prologue
    else
      let driverStep := convertJpakeComputationStageToDriverStep stage
      if psaCryptoLocalAlloc env.localCalloc size ≠ .success then
        psaPakeExit env operation log (psaCryptoLocalAlloc env.localCalloc size)
      else
        let log := log ++ [{ call := call driverStep, status := env.driver }]
        if env.driver ≠ .success then
          psaPakeExit env operation log env.driver
        else
          psaPakeExit env
            { operation with computationStage := psaJpakeEpilogue stage ioMode }
            log .success
  else
    psaPakeExit env operation log .errorNotSupported

def psaPakeCompleteAndTransfer (step : PsaPakeStep) (ioMode : PsaJpakeIoMode)
    (sizeOk : Bool) (size : Nat) (call : PsaCryptoDriverPakeStep → PakeDriverCall) :
    PakeResult :=
  if operation.stage = .collectInputs then
    let completed := psaPakeCompleteInputs env operation
    if completed.status ≠ .success then
      psaPakeExit env completed.operation completed.log completed.status
    else
      psaPakeTransfer env completed.operation completed.log step ioMode sizeOk size call
  else
    psaPakeTransfer env operation [] step ioMode sizeOk size call

def psaPakeOutput (step : PsaPakeStep) (outputSize : Nat) : PakeResult :=
  psaPakeCompleteAndTransfer env operation step .output (decide (outputSize ≠ 0))
    outputSize fun driverStep => .output driverStep outputSize

def psaPakeInput (step : PsaPakeStep) (input : ByteString) : PakeResult :=
  let maxInputLength := psaPakeInputSize operation.alg operation.primitive step
  psaPakeCompleteAndTransfer env operation step .input
    (decide (¬ (input.length = 0 ∨ input.length > maxInputLength)))
    input.length fun driverStep => .input driverStep input

/-- The end of `psa_pake_get_shared_key`: abort in any case, and no key with an error. -/
def psaPakeGetSharedKeyExit (log : List PakeDriverEvent)
    (status : Except PsaError PsaKeyId) : PakeResult :=
  let abort := psaPakeAbort env operation
  match status with
  | .error e =>
    { status := e.status, operation := abort.operation, log := log ++ abort.log
      key := some 0 }
  | .ok key =>
    { status := abort.status, operation := abort.operation, log := log ++ abort.log
      key := some key }

theorem errorNotSupported_ne_success : PsaStatus.errorNotSupported ≠ .success := by decide

def psaPakeGetSharedKey : PakeResult :=
  let badState : Except PsaError PsaKeyId := .error ⟨.errorBadState, by simp⟩
  if operation.stage ≠ .computation then
    psaPakeGetSharedKeyExit env operation [] badState
  else if psaAlgIsJpake operation.alg then
    if operation.computationStage.round ≠ .finished then
      psaPakeGetSharedKeyExit env operation [] badState
    else
      let log := [{ call := .getSharedKey, status := env.driver }]
      if h : env.driver ≠ .success then
        psaPakeGetSharedKeyExit env operation log (.error ⟨env.driver, h⟩)
      else
        psaPakeGetSharedKeyExit env operation log env.importKey
  else
    psaPakeGetSharedKeyExit env operation []
      (.error ⟨.errorNotSupported, errorNotSupported_ne_success⟩)

end EntryPoints

/-! ## Sequences of calls -/

/-- The calls an application makes on one operation. The key identifier of a setup,
the context bytes and the attributes of the shared key only reach the key store. -/
inductive PakeCall where
  | setup (cipherSuite : PsaPakeCipherSuite)
  | setUser (userId : ByteString)
  | setPeer (peerId : ByteString)
  | setRole (role : BitVec 8)
  | setContext
  | output (step : PsaPakeStep) (outputSize : Nat)
  | input (step : PsaPakeStep) (input : ByteString)
  | getSharedKey
  | abort

def pakeCall (env : PakeEnv) (operation : PsaPakeOperation) : PakeCall → PakeResult
  | .setup cipherSuite => psaPakeSetup env operation cipherSuite
  | .setUser userId => psaPakeSetUser env operation userId
  | .setPeer peerId => psaPakeSetPeer env operation peerId
  | .setRole role => psaPakeSetRole env operation role
  | .setContext => psaPakeSetContext operation
  | .output step outputSize => psaPakeOutput env operation step outputSize
  | .input step input => psaPakeInput env operation step input
  | .getSharedKey => psaPakeGetSharedKey env operation
  | .abort => psaPakeAbort env operation

end TfPsaCrypto
