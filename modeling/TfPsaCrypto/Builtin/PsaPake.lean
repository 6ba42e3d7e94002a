import TfPsaCrypto.Pake.Protocol

/-!
# J-PAKE messages of the built-in PAKE driver

The message functions of `psa_crypto_pake.c`. What the `mbedtls_ecjpake_*` functions, which take
whole rounds, answer is given with each step (`Ecjpake`).
-/

namespace TfPsaCrypto

open Bytes

/-! ## The driver -/

inductive MbedtlsEcjpakeRole where
  | client
  | server
  deriving DecidableEq, Repr

def MbedtlsEcjpakeRole.other : MbedtlsEcjpakeRole → MbedtlsEcjpakeRole
  | client => server
  | server => client

def mbedtlsPsaJpakeBufferSize : Nat := (3 + 1 + 65 + 1 + 65 + 1 + 32) * 2

/-- The fields of `mbedtls_psa_pake_operation_t` that the two functions use. -/
structure MbedtlsPsaPakeOperation where
  role : MbedtlsEcjpakeRole
  buffer : ByteString
  bufferLength : Nat
  bufferOffset : Nat

def MbedtlsPsaPakeOperation.setup (role : MbedtlsEcjpakeRole) : MbedtlsPsaPakeOperation :=
  { role := role, buffer := List.replicate mbedtlsPsaJpakeBufferSize 0, bufferLength := 0
    bufferOffset := 0 }

/-- What the `mbedtls_ecjpake_write_round_*` functions write and the
`mbedtls_ecjpake_read_round_*` functions return. -/
structure Ecjpake where
  writeRoundOne : Except PsaError ByteString
  writeRoundTwo : Except PsaError ByteString
  readRoundOne : PsaStatus
  readRoundTwo : PsaStatus

/-- The result of one step of the driver: the round that was written to the buffer, the round that
was passed to be read, and whether every byte read or written lies in the buffer. -/
structure PakeSlice where
  status : PsaStatus
  operation : MbedtlsPsaPakeOperation
  output : ByteString
  written : Option ByteString
  received : Option ByteString
  inBounds : Bool

def MbedtlsPsaPakeOperation.written (operation : MbedtlsPsaPakeOperation)
    (data : ByteString) : MbedtlsPsaPakeOperation :=
  { operation with
      buffer := storeAt operation.buffer 0 data
      bufferLength := data.length
      bufferOffset := 0 }

def pakeWriteRound (operation : MbedtlsPsaPakeOperation) (step : PsaCryptoDriverPakeStep)
    (jpake : Ecjpake) : Except PsaError (MbedtlsPsaPakeOperation × Option ByteString) :=
  if step = .x1KeyShare then
    match jpake.writeRoundOne with
    | .error e => .error e
    | .ok data => .ok (operation.written data, some data)
  else if step = .x2sKeyShare then
    match jpake.writeRoundTwo with
    | .error e => .error e
    | .ok data => .ok (operation.written data, some data)
  else
    .ok (operation, none)

def pakeSkip (step : PsaCryptoDriverPakeStep) (role : MbedtlsEcjpakeRole) : Nat :=
  if step = .x2sKeyShare ∧ role = .server then 3 else 0

def MbedtlsPsaPakeOperation.reset (operation : MbedtlsPsaPakeOperation) :
    MbedtlsPsaPakeOperation :=
  { operation with
      buffer := List.replicate mbedtlsPsaJpakeBufferSize 0
      bufferLength := 0
      bufferOffset := 0 }

def mbedtlsPsaPakeOutputInternal (operation : MbedtlsPsaPakeOperation)
    (step : PsaCryptoDriverPakeStep) (outputSize : Nat) (jpake : Ecjpake) : PakeSlice :=
  match pakeWriteRound operation step jpake with
  | .error e =>
    { status := e.status, operation := operation, output := [], written := none
      received := none, inBounds := true }
  | .ok (operation, written) =>
    let lengthOffset := operation.bufferOffset + pakeSkip step operation.role
    let length := (operation.buffer.getD lengthOffset 0).toNat
    let operation := { operation with bufferOffset := lengthOffset + 1 }
    if operation.bufferOffset + length > operation.bufferLength then
      { status := .errorDataCorrupt, operation := operation, output := []
        written := written, received := none
        inBounds := decide (lengthOffset < mbedtlsPsaJpakeBufferSize) }
    else if outputSize < length then
      { status := .errorBufferTooSmall, operation := operation, output := []
        written := written, received := none
        inBounds := decide (lengthOffset < mbedtlsPsaJpakeBufferSize) }
    else
      { status := .success
        operation :=
          if step = .x2ZkProof ∨ step = .x2sZkProof then operation.reset
          else
            { operation with bufferOffset := operation.bufferOffset + length }
        output := slice operation.buffer operation.bufferOffset length
        written := written, received := none
        inBounds := decide (lengthOffset < mbedtlsPsaJpakeBufferSize ∧
          operation.bufferOffset + length ≤ mbedtlsPsaJpakeBufferSize) }

def ecparameters : ByteString := [3, 0, 23]

def pakeParameters (step : PsaCryptoDriverPakeStep) (role : MbedtlsEcjpakeRole) :
    ByteString :=
  if step = .x4sKeyShare ∧ role = .client then ecparameters else []

def pakeAppendInput (operation : MbedtlsPsaPakeOperation) (input : ByteString) :
    MbedtlsPsaPakeOperation :=
  { operation with
      buffer := storeAt (storeAt operation.buffer operation.bufferLength
        [UInt8.ofNat input.length]) (operation.bufferLength + 1) input
      bufferLength := operation.bufferLength + 1 + input.length }

def pakeReadRound (operation : MbedtlsPsaPakeOperation) (read : PsaStatus) : PakeSlice :=
  { status := read
    operation :=
      { operation with
          buffer := List.replicate mbedtlsPsaJpakeBufferSize 0, bufferLength := 0 }
    output := [], written := none
    received := some (operation.buffer.take operation.bufferLength)
    inBounds := decide (operation.bufferLength ≤ mbedtlsPsaJpakeBufferSize) }

def mbedtlsPsaPakeInputInternal (operation : MbedtlsPsaPakeOperation)
    (step : PsaCryptoDriverPakeStep) (input : ByteString) (jpake : Ecjpake) : PakeSlice :=
  let tooSmall (operation : MbedtlsPsaPakeOperation) : PakeSlice :=
    { status := .errorBufferTooSmall, operation := operation, output := []
      written := none, received := none, inBounds := true }
  let parameters := pakeParameters step operation.role
  if operation.bufferLength + parameters.length > mbedtlsPsaJpakeBufferSize then
    tooSmall operation
  else
    let operation :=
      { operation with
          buffer := storeAt operation.buffer operation.bufferLength parameters
          bufferLength := operation.bufferLength + parameters.length }
    if operation.bufferLength + input.length + 1 > mbedtlsPsaJpakeBufferSize then
      tooSmall operation
    else
      let operation := pakeAppendInput operation input
      if step = .x2ZkProof then
        pakeReadRound operation jpake.readRoundOne
      else if step = .x4sZkProof then
        pakeReadRound operation jpake.readRoundTwo
      else
        { status := .success, operation := operation, output := [], written := none
          received := none
          inBounds := decide (operation.bufferLength ≤ mbedtlsPsaJpakeBufferSize) }

/-! ## A party -/

structure JpakeParty where
  stage : PsaJpakeComputationStage
  driver : MbedtlsPsaPakeOperation

def jpakePrimitive : PsaPakePrimitive := psaPakePrimitive 0x01 0x12 256

inductive JpakeAction where
  | output (step : PsaPakeStep) (outputSize : Nat) (jpake : Ecjpake)
  | input (step : PsaPakeStep) (piece : ByteString) (jpake : Ecjpake)

structure JpakeObservation where
  status : PsaStatus
  slice : Option PakeSlice

def jpakeStepExit (stage : PsaJpakeComputationStage) (ioMode : PsaJpakeIoMode)
    (slice : PakeSlice) : Option JpakeParty × JpakeObservation :=
  (if slice.status = .success then
      some { stage := psaJpakeEpilogue stage ioMode, driver := slice.operation }
    else none,
    { status := slice.status, slice := some slice })

/-- One call for the algorithm `alg`: the core checks the length and the step, then asks the driver.
-/
def jpakePartyStep (alg : PsaAlgorithm) (party : JpakeParty) :
    JpakeAction → Option JpakeParty × JpakeObservation
  | .output step outputSize jpake =>
    if outputSize = 0 then
      (none, { status := .errorInvalidArgument, slice := none })
    else
      let (prologue, stage) := psaJpakePrologue party.stage step .output
      if prologue ≠ .success then
        (none, { status := prologue, slice := none })
      else
        jpakeStepExit stage .output
          (mbedtlsPsaPakeOutputInternal party.driver
            (convertJpakeComputationStageToDriverStep stage) outputSize jpake)
  | .input step piece jpake =>
    if piece.length = 0 ∨ piece.length > psaPakeInputSize alg jpakePrimitive step then
      (none, { status := .errorInvalidArgument, slice := none })
    else
      let (prologue, stage) := psaJpakePrologue party.stage step .input
      if prologue ≠ .success then
        (none, { status := prologue, slice := none })
      else
        jpakeStepExit stage .input
          (mbedtlsPsaPakeInputInternal party.driver
            (convertJpakeComputationStageToDriverStep stage) piece jpake)

/-- The machine of one party; an aborted operation (`none`) makes no step. -/
def jpakeMachine (alg : PsaAlgorithm) :
    Machine.StepFn (Option JpakeParty) JpakeAction JpakeObservation :=
  fun party action => party.map fun party => jpakePartyStep alg party action

def JpakeParty.start (role : MbedtlsEcjpakeRole) : Option JpakeParty :=
  some
    { stage := { PsaJpakeComputationStage.zero with step := psaPakeStepKeyShare }
      driver := .setup role }

/-! ## What a party sends and receives -/

def JpakeAction.sent? : JpakeAction × JpakeObservation → Option ByteString
  | (.output _ _ _, { status := _, slice := some slice }) =>
    if slice.status = .success then some slice.output else none
  | _ => none

def JpakeAction.taken? : JpakeAction × JpakeObservation → Option ByteString
  | (.input _ piece _, { status := _, slice := some _ }) => some piece
  | _ => none

def sentPieces (tr : List (JpakeAction × JpakeObservation)) : List ByteString :=
  tr.filterMap JpakeAction.sent?

def takenPieces (tr : List (JpakeAction × JpakeObservation)) : List ByteString :=
  tr.filterMap JpakeAction.taken?

def writtenRounds (tr : List (JpakeAction × JpakeObservation)) : List ByteString :=
  tr.filterMap fun e => e.2.slice.bind PakeSlice.written

def receivedRounds (tr : List (JpakeAction × JpakeObservation)) : List ByteString :=
  tr.filterMap fun e => e.2.slice.bind PakeSlice.received

def jpakeRecord (data : ByteString) : ByteString := UInt8.ofNat data.length :: data

def roundTwoHeader : MbedtlsEcjpakeRole → ByteString
  | .client => []
  | .server => ecparameters

def jpakeRounds (role : MbedtlsEcjpakeRole) (one two : List ByteString) : List ByteString :=
  [one.flatMap jpakeRecord, roundTwoHeader role ++ two.flatMap jpakeRecord]

/-- A key share and Schnorr proof list that fits in the buffer: `n` records behind the
header. -/
structure IsRound (header : ByteString) (n : Nat) (records : List ByteString)
    (data : ByteString) : Prop where
  data_eq : data = header ++ records.flatMap jpakeRecord
  length_eq : records.length = n
  record_lt : ∀ r ∈ records, r.length < 2 ^ 8
  fits : data.length ≤ mbedtlsPsaJpakeBufferSize

def Ecjpake.WellFormed (role : MbedtlsEcjpakeRole) (jpake : Ecjpake) : Prop :=
  (∀ data, jpake.writeRoundOne = .ok data → ∃ records, IsRound [] 6 records data) ∧
    ∀ data, jpake.writeRoundTwo = .ok data → ∃ records, IsRound (roundTwoHeader role) 3 records data

def JpakeAction.jpake : JpakeAction → Ecjpake
  | .output _ _ jpake => jpake
  | .input _ _ jpake => jpake

end TfPsaCrypto
