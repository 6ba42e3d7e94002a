import TfPsaCrypto.Core.Types

/-!
# Interruptible operations

The four interruptible operations of `psa_crypto.c`. The environment's answers are given with the
call.
-/

namespace TfPsaCrypto.Interruptible

/-! ## Objects -/

/-- The fields that the four objects share. `implOps` is the number of ops that the context of the
implementation holds. -/
structure IopOperation where
  id : Nat
  errorOccurred : Bool
  numOps : Nat
  implOps : Nat
  deriving DecidableEq, Repr

/-- `PSA_SIGN_HASH_INTERRUPTIBLE_OPERATION_INIT` and the like. -/
def IopOperation.init : IopOperation :=
  { id := 0, errorOccurred := false, numOps := 0, implOps := 0 }

def psaCryptoMbedTlsDriverId : Nat := 1

inductive IopEvent where
  | start (status : PsaStatus)
  | complete (status : PsaStatus)
  | abort
  | acquire
  | release
  deriving DecidableEq, Repr

structure IopResult where
  status : PsaStatus
  operation : IopOperation
  events : List IopEvent
  deriving DecidableEq, Repr

structure FinalStatus where
  status : PsaStatus
  ne_incomplete : status ≠ .operationIncomplete
  deriving DecidableEq

/-- What happens in a call that starts an operation: the checks of the arguments, the look-up of
the key, the copy of the inputs, and the implementation, which has done `ops`. -/
structure StartEnv where
  checkArguments : PsaStatus
  lookup : PsaStatus
  isKeyPair : Bool
  isExternal : Bool
  isEcdh : Bool
  isEcc : Bool
  bitsAreZero : Bool
  isPublicKey : Bool
  copyHash : Bool
  copySignature : Bool
  isLocal : Bool
  implementation : PsaStatus
  ops : Nat
  abort : PsaStatus
  unlock : PsaStatus
  deriving DecidableEq, Repr

/-- What happens in a call that continues an operation; the implementation does `ops` more. -/
structure CompleteEnv where
  signatureSize : Nat
  copySignature : Bool
  implementation : PsaStatus
  ops : Nat
  importKey : FinalStatus
  abort : PsaStatus
  deriving DecidableEq

namespace IopOperation

/-- `psa_sign_hash_abort_internal` and the like; `status` is that of the implementation. -/
def abortInternal (operation : IopOperation) (status : PsaStatus) : IopResult :=
  if operation.id = 0 then { status := .success, operation := operation, events := [] }
  else
    { status := status, operation := { operation with id := 0, implOps := 0 }
      events := [.abort] }

def fail (operation : IopOperation) (abort : PsaStatus) : IopResult :=
  { operation with errorOccurred := true }.abortInternal abort

def startImplementation (operation : IopOperation) (e : StartEnv) : IopResult :=
  { status := e.implementation, events := [.start e.implementation]
    operation := { operation with id := psaCryptoMbedTlsDriverId, implOps := e.ops } }

/-- `psa_driver_wrapper_sign_hash_start` and `psa_driver_wrapper_verify_hash_start`. -/
def driverWrapperStart (operation : IopOperation) (e : StartEnv) : IopResult :=
  if e.isLocal then operation.startImplementation e
  else { status := .errorInvalidArgument, operation := operation, events := [] }

def completeImplementation (operation : IopOperation) (e : CompleteEnv) : IopOperation :=
  { operation with implOps := operation.implOps + e.ops }

/-- The exit of a call that looked up a key: what an error leaves, and the release of the slot. -/
def exitStart (r : IopResult) (e : StartEnv) (acquired : Bool) : IopResult :=
  let failed := r.operation.fail e.abort
  let operation := if r.status ≠ .success then failed.operation else r.operation
  let events := if r.status ≠ .success then r.events ++ failed.events else r.events
  { status := if r.status = .success then e.unlock else r.status
    operation := if e.unlock ≠ .success then { operation with errorOccurred := true } else operation
    events := events ++ if acquired then [.release] else [] }

def abort (operation : IopOperation) (status : PsaStatus) : IopResult :=
  let r := operation.abortInternal status
  { r with operation := { r.operation with numOps := 0, errorOccurred := false } }

end IopOperation

open IopOperation

/-! ## Signing a hash -/

def psaSignHashStart (e : StartEnv) (operation : IopOperation) : IopResult :=
  if operation.id ≠ 0 ∨ operation.errorOccurred = true then
    { status := .errorBadState, operation := operation, events := [] }
  else if e.checkArguments ≠ .success then
    { status := e.checkArguments, operation := { operation with errorOccurred := true }
      events := [] }
  else if e.lookup ≠ .success then
    exitStart { status := e.lookup, operation := operation, events := [] } e false
  else if e.isKeyPair = false then
    exitStart { status := .errorInvalidArgument, operation := operation, events := [.acquire] }
      e true
  else if e.copyHash = false then
    exitStart
      { status := .errorInsufficientMemory, operation := operation, events := [.acquire] } e true
  else
    let r := { operation with numOps := 0 }.driverWrapperStart e
    exitStart { r with events := .acquire :: r.events } e true

/-- The exit of `psa_sign_hash_complete` and of its likes. -/
def exitComplete (r : IopResult) (e : CompleteEnv) : IopResult :=
  if r.status = .operationIncomplete then r
  else
    let operation :=
      if r.status ≠ .success then { r.operation with errorOccurred := true } else r.operation
    let aborted := operation.abortInternal e.abort
    { status := r.status, operation := aborted.operation, events := r.events ++ aborted.events }

def psaSignHashComplete (e : CompleteEnv) (operation : IopOperation) : IopResult :=
  if operation.id = 0 ∨ operation.errorOccurred = true then
    exitComplete { status := .errorBadState, operation := operation, events := [] } e
  else if e.signatureSize = 0 then
    exitComplete { status := .errorBufferTooSmall, operation := operation, events := [] } e
  else if e.copySignature = false then
    exitComplete { status := .errorInsufficientMemory, operation := operation, events := [] } e
  else
    let operation := operation.completeImplementation e
    exitComplete
      { status := e.implementation, operation := { operation with numOps := operation.implOps }
        events := [.complete e.implementation] } e

/-! ## Verifying a hash -/

def psaVerifyHashStart (e : StartEnv) (operation : IopOperation) : IopResult :=
  if operation.id ≠ 0 ∨ operation.errorOccurred = true then
    { status := .errorBadState, operation := operation, events := [] }
  else if e.checkArguments ≠ .success then
    { status := e.checkArguments, operation := { operation with errorOccurred := true }
      events := [] }
  else if e.lookup ≠ .success then
    { status := e.lookup, operation := { operation with errorOccurred := true }, events := [] }
  else if e.copyHash = false then
    exitStart
      { status := .errorInsufficientMemory, operation := operation, events := [.acquire] } e true
  else if e.copySignature = false then
    exitStart
      { status := .errorInsufficientMemory, operation := operation, events := [.acquire] } e true
  else
    let r := { operation with numOps := 0 }.driverWrapperStart e
    exitStart { r with events := .acquire :: r.events } e true

def psaVerifyHashComplete (e : CompleteEnv) (operation : IopOperation) : IopResult :=
  if operation.id = 0 ∨ operation.errorOccurred = true then
    exitComplete { status := .errorBadState, operation := operation, events := [] } e
  else
    let operation := operation.completeImplementation e
    exitComplete
      { status := e.implementation, operation := { operation with numOps := operation.implOps }
        events := [.complete e.implementation] } e

/-! ## Key agreement -/

/-- The exit of `psa_key_agreement_iop_setup`: the key slot is released first. -/
def exitSetup (r : IopResult) (e : StartEnv) (acquired : Bool) : IopResult :=
  let events := r.events ++ if acquired then [.release] else []
  if r.status ≠ .success then
    let failed := r.operation.fail e.abort
    { status := r.status, operation := failed.operation, events := events ++ failed.events }
  else
    { status := e.unlock, events := events
      operation :=
        if e.unlock ≠ .success then { r.operation with errorOccurred := true } else r.operation }

def psaKeyAgreementIopSetup (e : StartEnv) (operation : IopOperation) : IopResult :=
  if operation.id ≠ 0 ∨ operation.errorOccurred = true then
    { status := .errorBadState, operation := operation, events := [] }
  else if e.checkArguments ≠ .success then
    { status := e.checkArguments, operation := { operation with errorOccurred := true }
      events := [] }
  else if e.lookup ≠ .success then
    exitSetup { status := e.lookup, operation := operation, events := [] } e false
  else if e.isExternal = true then
    exitSetup
      { status := .errorNotSupported, operation := operation, events := [.acquire, .release] }
      e false
  else if e.isEcdh = false then
    exitSetup { status := .errorInvalidArgument, operation := operation, events := [.acquire] }
      e true
  else
    let r := { operation with numOps := 0 }.startImplementation e
    exitSetup
      { r with
        operation := { r.operation with numOps := r.operation.implOps }
        events := .acquire :: r.events } e true

/-- The exit of `psa_key_agreement_iop_complete`: the flag is set also where it succeeds. -/
def exitAgreement (r : IopResult) (e : CompleteEnv) : IopResult :=
  if r.status = .operationIncomplete then r
  else
    let failed := r.operation.fail e.abort
    { status := r.status, operation := failed.operation, events := r.events ++ failed.events }

def psaKeyAgreementIopComplete (e : CompleteEnv) (operation : IopOperation) : IopResult :=
  if operation.id = 0 ∨ operation.errorOccurred = true then
    { status := .errorBadState, operation := operation, events := [] }
  else
    let operation := operation.completeImplementation e
    exitAgreement
      { status := if e.implementation = .success then e.importKey.status else e.implementation
        operation := { operation with numOps := operation.implOps }
        events := [.complete e.implementation] } e

/-! ## Key generation -/

def exitGenerate (r : IopResult) (e : StartEnv) : IopResult :=
  if r.status ≠ .success then
    let failed := r.operation.fail e.abort
    { status := r.status, operation := failed.operation, events := r.events ++ failed.events }
  else r

def psaGenerateKeyIopSetup (e : StartEnv) (operation : IopOperation) : IopResult :=
  if e.isEcc = false then
    exitGenerate { status := .errorNotSupported, operation := operation, events := [] } e
  else if operation.id ≠ 0 ∨ operation.errorOccurred = true then
    exitGenerate { status := .errorBadState, operation := operation, events := [] } e
  else if e.bitsAreZero = true then
    exitGenerate { status := .errorInvalidArgument, operation := operation, events := [] } e
  else if e.isPublicKey = true then
    exitGenerate { status := .errorInvalidArgument, operation := operation, events := [] } e
  else exitGenerate ({ operation with numOps := 0 }.startImplementation e) e

def psaGenerateKeyIopComplete (e : CompleteEnv) (operation : IopOperation) : IopResult :=
  if operation.id = 0 ∨ operation.errorOccurred = true then
    { status := .errorBadState, operation := operation, events := [] }
  else
    let operation := operation.completeImplementation e
    if e.implementation ≠ .success then
      exitComplete
        { status := e.implementation, operation := operation
          events := [.complete e.implementation] } e
    else
      exitComplete
        { status := e.importKey.status, operation := { operation with numOps := operation.implOps }
          events := [.complete e.implementation] } e

/-! ## Runs -/

inductive IopKind where
  | signHash
  | verifyHash
  | keyAgreement
  | generateKey
  deriving DecidableEq, Repr

inductive IopCall where
  | start (e : StartEnv)
  | complete (e : CompleteEnv)
  | getNumOps
  | abort (status : PsaStatus)
  deriving DecidableEq

def IopKind.start : IopKind → StartEnv → IopOperation → IopResult
  | .signHash => psaSignHashStart
  | .verifyHash => psaVerifyHashStart
  | .keyAgreement => psaKeyAgreementIopSetup
  | .generateKey => psaGenerateKeyIopSetup

def IopKind.complete : IopKind → CompleteEnv → IopOperation → IopResult
  | .signHash => psaSignHashComplete
  | .verifyHash => psaVerifyHashComplete
  | .keyAgreement => psaKeyAgreementIopComplete
  | .generateKey => psaGenerateKeyIopComplete

/-- One call; `psa_sign_hash_get_num_ops` and the like return the number and change nothing. -/
def IopKind.call (kind : IopKind) (operation : IopOperation) : IopCall → IopResult
  | .start e => kind.start e operation
  | .complete e => kind.complete e operation
  | .getNumOps => { status := .success, operation := operation, events := [] }
  | .abort status => operation.abort status

end TfPsaCrypto.Interruptible
