import TfPsaCrypto.KeyDerivation.Operation

/-!
# Key derivation inputs

The input functions of the algorithms, the entry points over them, and the policy check of the
keys. A context is returned only on success.
-/

namespace TfPsaCrypto

open Bytes (ByteString)

/-! ## What a call depends on -/

structure KeyObject where
  attr : PsaKeyAttributes
  data : ByteString
  deriving DecidableEq, Repr

/-- The services that one input call uses: three allocations, the lookup and the release of a key
slot, and the driver of the key agreement. -/
structure InputEnv where
  localAlloc : Bool
  calloc : Bool
  callocPms : Bool
  macSetup : PsaStatus
  mac : PsaStatus
  hash : PsaStatus
  macAbort : PsaStatus
  lookup : PsaKeyId → Except PsaError KeyObject
  unregister : PsaStatus
  keyAgreement : PsaAlgorithm → KeyObject → ByteString → Except PsaError ByteString

variable (P : KdfPlatform) (env : InputEnv)

/-- `mbedtls_calloc` and `memcpy` of a buffer; an empty one needs no memory. -/
def copyInput (calloc : Bool) (data : ByteString) : Except PsaStatus ByteString :=
  if data = [] then .ok []
  else if calloc then .ok data
  else .error .errorInsufficientMemory

/-! ## HKDF -/

def hkdfInputSalt (hkdf : PsaHkdfKeyDerivation) (kdfAlg : PsaAlgorithm)
    (data : ByteString) : Except PsaStatus PsaHkdfKeyDerivation :=
  if psaAlgIsHkdfExpand kdfAlg then .error .errorInvalidArgument
  else if hkdf.state ≠ .init then .error .errorBadState
  else if env.macSetup ≠ .success then .error env.macSetup
  else .ok { hkdf with state := .started, hmac := data }

/-- The pseudorandom key that `psa_hkdf_input` makes of the secret. -/
def hkdfInputPrk (hkdf : PsaHkdfKeyDerivation) (kdfAlg : PsaAlgorithm)
    (data : ByteString) : Except PsaStatus ByteString :=
  let hashAlg := psaAlgKdfGetHash kdfAlg
  if psaAlgIsHkdfExpand kdfAlg then
    if hkdf.state ≠ .init then .error .errorBadState
    else if data.length ≠ psaHashLength hashAlg then .error .errorInvalidArgument
    else .ok data
  else if hkdf.state = .init then
    -- HKDF: without a salt, an empty one; HKDF-Extract: the salt is mandatory
    if psaAlgIsHkdfExtract kdfAlg then .error .errorBadState
    else if env.macSetup ≠ .success then .error env.macSetup
    else macCompute env.mac (P.hmac hashAlg [] data)
  else if hkdf.state ≠ .started then .error .errorBadState
  else macCompute env.mac (P.hmac hashAlg hkdf.hmac data)

def hkdfInputSecret (hkdf : PsaHkdfKeyDerivation) (kdfAlg : PsaAlgorithm)
    (data : ByteString) : Except PsaStatus PsaHkdfKeyDerivation := do
  let prk ← hkdfInputPrk P env hkdf kdfAlg data
  let hkdf := { hkdf with prk := prk, state := .keyed, blockNumber := 0 }
  if psaAlgIsHkdfExtract kdfAlg then
    -- the only block of output is the PRK
    return { hkdf with outputBlock := prk, offsetInBlock := 0 }
  else
    -- block 0 is empty
    return { hkdf with offsetInBlock := psaHashLength (psaAlgKdfGetHash kdfAlg) }

def hkdfInputInfo (hkdf : PsaHkdfKeyDerivation) (kdfAlg : PsaAlgorithm)
    (data : ByteString) : Except PsaStatus PsaHkdfKeyDerivation :=
  if psaAlgIsHkdfExtract kdfAlg then .error .errorInvalidArgument
  else if psaAlgIsHkdfExpand kdfAlg ∧ hkdf.state = .init then .error .errorBadState
  else if hkdf.state = .output then .error .errorBadState
  else if hkdf.infoSet then .error .errorBadState
  else do
    let info ← copyInput env.calloc data
    return { hkdf with info := info, infoSet := true }

def psaHkdfInput (hkdf : PsaHkdfKeyDerivation) (kdfAlg : PsaAlgorithm)
    (step : PsaKeyDerivationStep) (data : ByteString) :
    Except PsaStatus PsaHkdfKeyDerivation :=
  match step with
  | .salt => hkdfInputSalt env hkdf kdfAlg data
  | .secret => hkdfInputSecret P env hkdf kdfAlg data
  | .info => hkdfInputInfo env hkdf kdfAlg data
  | _ => .error .errorInvalidArgument

/-! ## TLS 1.2 PRF and PSK-to-MS -/

def psaTls12PrfSetSeed (prf : PsaTls12PrfKeyDerivation) (data : ByteString) :
    Except PsaStatus PsaTls12PrfKeyDerivation :=
  if prf.state ≠ .init then .error .errorBadState
  else do
    let seed ← copyInput env.calloc data
    return { prf with seed := seed, state := .seedSet }

def psaTls12PrfSetKey (prf : PsaTls12PrfKeyDerivation) (data : ByteString) :
    Except PsaStatus PsaTls12PrfKeyDerivation :=
  if prf.state ≠ .seedSet ∧ prf.state ≠ .otherKeySet then .error .errorBadState
  else do
    let secret ← copyInput env.calloc data
    return { prf with secret := secret, state := .keySet }

def psaTls12PrfSetLabel (prf : PsaTls12PrfKeyDerivation) (data : ByteString) :
    Except PsaStatus PsaTls12PrfKeyDerivation :=
  if prf.state ≠ .keySet then .error .errorBadState
  else do
    let label ← copyInput env.calloc data
    return { prf with label := label, state := .labelSet }

def psaTls12PrfInput (prf : PsaTls12PrfKeyDerivation) (step : PsaKeyDerivationStep)
    (data : ByteString) : Except PsaStatus PsaTls12PrfKeyDerivation :=
  match step with
  | .seed => psaTls12PrfSetSeed env prf data
  | .secret => psaTls12PrfSetKey env prf data
  | .label => psaTls12PrfSetLabel env prf data
  | _ => .error .errorInvalidArgument

def psaTls12PskToMsPskMaxSize : Nat := 128

/-- The other secret (by default zeros as long as the PSK) and the PSK, each with its length. -/
def psaTls12PrfPskToMsSetKey (prf : PsaTls12PrfKeyDerivation) (data : ByteString) :
    Except PsaStatus PsaTls12PrfKeyDerivation :=
  if data.length > psaTls12PskToMsPskMaxSize then .error .errorInvalidArgument
  else if ¬ env.callocPms then .error .errorInsufficientMemory
  else
    let first :=
      if prf.state = .otherKeySet then
        Bytes.toBE 2 prf.otherSecret.length ++ prf.otherSecret
      else Bytes.toBE 2 data.length ++ List.replicate data.length 0
    let pms := first ++ Bytes.toBE 2 data.length ++ data
    let prf :=
      if prf.state = .otherKeySet then
        { prf with otherSecret := List.replicate prf.otherSecret.length 0 }
      else prf
    psaTls12PrfSetKey env prf pms

def psaTls12PrfPskToMsSetOtherKey (prf : PsaTls12PrfKeyDerivation)
    (data : ByteString) : Except PsaStatus PsaTls12PrfKeyDerivation :=
  if prf.state ≠ .seedSet then .error .errorBadState
  else do
    let otherSecret ← copyInput env.calloc data
    return { prf with otherSecret := otherSecret, state := .otherKeySet }

def psaTls12PrfPskToMsInput (prf : PsaTls12PrfKeyDerivation)
    (step : PsaKeyDerivationStep) (data : ByteString) :
    Except PsaStatus PsaTls12PrfKeyDerivation :=
  match step with
  | .secret => psaTls12PrfPskToMsSetKey env prf data
  | .otherSecret => psaTls12PrfPskToMsSetOtherKey env prf data
  | _ => psaTls12PrfInput env prf step data

/-! ## TLS 1.2 ECJPAKE-to-PMS -/

def psaTls12EcjpakeToPmsInputSize : Nat := 65

def psaTls12EcjpakeToPmsInput (step : PsaKeyDerivationStep) (data : ByteString) :
    Except PsaStatus PsaTls12EcjpakeToPms :=
  if data.length ≠ psaTls12EcjpakeToPmsInputSize ∨ step ≠ .secret then
    .error .errorInvalidArgument
  else if data.head? ≠ some 0x04 then .error .errorInvalidArgument
  else .ok { data := (data.drop 1).take psaTls12EcjpakeToPmsDataSize }

/-! ## PBKDF2 -/

def psaVendorPbkdf2MaxIterations : Nat := 0xffffffff

def psaPbkdf2SetInputCost (pbkdf2 : PsaPbkdf2KeyDerivation)
    (step : PsaKeyDerivationStep) (data : Nat) :
    Except PsaStatus PsaPbkdf2KeyDerivation :=
  if step ≠ .cost then .error .errorInvalidArgument
  else if pbkdf2.state ≠ .init then .error .errorBadState
  else if data > psaVendorPbkdf2MaxIterations then .error .errorNotSupported
  else if data = 0 then .error .errorInvalidArgument
  else .ok { pbkdf2 with inputCost := data, state := .inputCostSet }

def psaPbkdf2SetSalt (pbkdf2 : PsaPbkdf2KeyDerivation) (data : ByteString) :
    Except PsaStatus PsaPbkdf2KeyDerivation :=
  if pbkdf2.state = .inputCostSet ∨ pbkdf2.state = .saltSet then do
    let piece ← copyInput env.calloc data
    return { pbkdf2 with salt := pbkdf2.salt ++ piece, state := .saltSet }
  else .error .errorBadState

def psaPbkdf2HmacSetPassword (hashAlg : PsaAlgorithm) (input : ByteString) :
    Except PsaStatus ByteString :=
  if input.length > psaHashBlockLength hashAlg then
    if env.hash = .success then .ok (P.hash hashAlg input) else .error env.hash
  else
    .ok (input ++ List.replicate (psaHashBlockLength hashAlg - input.length) 0)

def psaPbkdf2CmacSetPassword (input : ByteString) : Except PsaStatus ByteString :=
  if input.length ≠ psaMacLength psaKeyTypeAes psaAlgCmac then
    macCompute env.mac (P.aesCmac (List.replicate 16 0) input)
  else .ok input

def psaPbkdf2SetPassword (pbkdf2 : PsaPbkdf2KeyDerivation) (kdfAlg : PsaAlgorithm)
    (data : ByteString) : Except PsaStatus PsaPbkdf2KeyDerivation :=
  if pbkdf2.state ≠ .saltSet then .error .errorBadState
  else do
    let password ←
      if psaAlgIsPbkdf2Hmac kdfAlg then
        psaPbkdf2HmacSetPassword P env (psaAlgKdfGetHash kdfAlg) data
      else if kdfAlg = psaAlgPbkdf2AesCmacPrf128 then
        psaPbkdf2CmacSetPassword P env data
      else .error .errorInvalidArgument
    return { pbkdf2 with password := password, state := .passwordSet }

def psaPbkdf2Input (pbkdf2 : PsaPbkdf2KeyDerivation) (kdfAlg : PsaAlgorithm)
    (step : PsaKeyDerivationStep) (data : ByteString) :
    Except PsaStatus PsaPbkdf2KeyDerivation :=
  match step with
  | .salt => psaPbkdf2SetSalt env pbkdf2 data
  | .password => psaPbkdf2SetPassword P env pbkdf2 kdfAlg data
  | _ => .error .errorInvalidArgument

/-! ## The common part of the entry points -/

def psaKeyTypeNone : PsaKeyType := 0x0000
def psaKeyTypeRawData : PsaKeyType := 0x1001
def psaKeyTypeDerive : PsaKeyType := 0x1200
def psaKeyTypePassword : PsaKeyType := 0x1203

def psaKeyDerivationCheckInputType (step : PsaKeyDerivationStep)
    (keyType : PsaKeyType) : PsaStatus :=
  let accept (types : List PsaKeyType) : PsaStatus :=
    if keyType ∈ types then .success else .errorInvalidArgument
  match step with
  | .secret | .otherSecret => accept [psaKeyTypeDerive, psaKeyTypeNone]
  | .label | .salt | .info | .seed => accept [psaKeyTypeRawData, psaKeyTypeNone]
  | .password => accept [psaKeyTypePassword, psaKeyTypeDerive, psaKeyTypeNone]
  | _ => .errorInvalidArgument

/-- The result of an input call. `supplied` is the input that took effect, if one
did; it is not part of what the caller sees. -/
structure InputResult where
  status : PsaStatus
  operation : PsaKeyDerivationOperation
  supplied : Option (PsaKeyDerivationStep × KdfInput)

def inputExit (operation : PsaKeyDerivationOperation) (status : PsaStatus) :
    InputResult :=
  ⟨status, (psaKeyDerivationAbort env.macAbort operation).2, none⟩

/-- The dispatch of `psa_key_derivation_input_internal`; `none` for an algorithm that has none. -/
def psaKeyDerivationInputContext (ctx : PsaKeyDerivationContext)
    (kdfAlg : PsaAlgorithm) (step : PsaKeyDerivationStep) (data : ByteString) :
    Option (Except PsaStatus PsaKeyDerivationContext) :=
  if psaAlgIsAnyHkdf kdfAlg then
    some ((psaHkdfInput P env ctx.hkdf kdfAlg step data).map fun hkdf => { ctx with hkdf := hkdf })
  else if psaAlgIsTls12Prf kdfAlg then
    some ((psaTls12PrfInput env ctx.tls12Prf step data).map fun prf => { ctx with tls12Prf := prf })
  else if psaAlgIsTls12PskToMs kdfAlg then
    some ((psaTls12PrfPskToMsInput env ctx.tls12Prf step data).map
      fun prf => { ctx with tls12Prf := prf })
  else if kdfAlg = psaAlgTls12EcjpakeToPms then
    some ((psaTls12EcjpakeToPmsInput step data).map
      fun ecjpake => { ctx with tls12EcjpakeToPms := ecjpake })
  else if psaAlgIsPbkdf2 kdfAlg then
    some ((psaPbkdf2Input P env ctx.pbkdf2 kdfAlg step data).map
      fun pbkdf2 => { ctx with pbkdf2 := pbkdf2 })
  else none

def psaKeyDerivationInputInternal (operation : PsaKeyDerivationOperation)
    (step : PsaKeyDerivationStep) (keyType : PsaKeyType) (data : ByteString) :
    InputResult :=
  let kdfAlg := psaKeyDerivationGetKdfAlg operation
  if kdfAlg = 0 then inputExit env operation .errorBadState
  else if psaKeyDerivationCheckInputType step keyType ≠ .success then
    inputExit env operation (psaKeyDerivationCheckInputType step keyType)
  else
    match psaKeyDerivationInputContext P env operation.ctx kdfAlg step data with
    | none => ⟨.errorBadState, operation, none⟩
    | some (.error status) => inputExit env operation status
    | some (.ok ctx) =>
      ⟨.success, { operation with ctx := ctx }, some (step, .bytes data)⟩

def psaKeyDerivationInputIntegerInternal (operation : PsaKeyDerivationOperation)
    (step : PsaKeyDerivationStep) (value : Nat) : InputResult :=
  let kdfAlg := psaKeyDerivationGetKdfAlg operation
  if kdfAlg = 0 then inputExit env operation .errorBadState
  else if psaAlgIsPbkdf2 kdfAlg then
    match psaPbkdf2SetInputCost operation.ctx.pbkdf2 step value with
    | .error status => inputExit env operation status
    | .ok pbkdf2 =>
      ⟨.success, { operation with ctx := { operation.ctx with pbkdf2 := pbkdf2 } },
        some (step, .integer value)⟩
  else inputExit env operation .errorInvalidArgument

/-! ## The entry points -/

def psaKeyDerivationInputBytes (operation : PsaKeyDerivationOperation)
    (step : PsaKeyDerivationStep) (data : ByteString) : InputResult :=
  if psaCryptoLocalAlloc env.localAlloc data.length ≠ .success then
    ⟨.errorInsufficientMemory, operation, none⟩
  else psaKeyDerivationInputInternal P env operation step psaKeyTypeNone data

def psaKeyDerivationInputInteger (operation : PsaKeyDerivationOperation)
    (step : PsaKeyDerivationStep) (value : Nat) : InputResult :=
  psaKeyDerivationInputIntegerInternal env operation step value

def psaKeyTypeIsPublicKey (type : PsaKeyType) : Bool := type &&& psaKeyTypeCategoryMask = 0x4000

def psaKeyUsageExport : PsaKeyUsage := 0x00000001
def psaKeyUsageDerive : PsaKeyUsage := 0x00004000

def psaKeyLifetimeIsExternal (lifetime : PsaKeyLifetime) : Bool :=
  psaKeyLifetimeGetLocation lifetime ≠ 0

def psaGetAndLockKeySlotWithPolicy (key : PsaKeyId) (usage : PsaKeyUsage)
    (alg : PsaAlgorithm) : Except PsaStatus KeyObject :=
  match env.lookup key with
  | .error e => .error e.status
  | .ok slot =>
    let usage :=
      if psaKeyTypeIsPublicKey slot.attr.type then usage &&& ~~~psaKeyUsageExport
      else usage
    if slot.attr.policy.usage &&& usage ≠ usage then .error .errorNotPermitted
    else if alg ≠ 0 ∧
        psaKeyPolicyPermits slot.attr.policy slot.attr.type alg ≠ .success then
      .error (psaKeyPolicyPermits slot.attr.policy slot.attr.type alg)
    else .ok slot

def psaGetAndLockTransparentKeySlotWithPolicy (key : PsaKeyId) (usage : PsaKeyUsage)
    (alg : PsaAlgorithm) : Except PsaStatus KeyObject :=
  match psaGetAndLockKeySlotWithPolicy env key usage alg with
  | .error status => .error status
  | .ok slot =>
    if psaKeyLifetimeIsExternal slot.attr.lifetime then .error .errorNotSupported
    else .ok slot

def unregisterExit (r : InputResult) : InputResult :=
  { r with status := if r.status = .success then env.unregister else r.status }

def psaKeyDerivationInputKey (operation : PsaKeyDerivationOperation)
    (step : PsaKeyDerivationStep) (key : PsaKeyId) : InputResult :=
  match psaGetAndLockTransparentKeySlotWithPolicy env key psaKeyUsageDerive
      operation.alg with
  | .error status => inputExit env operation status
  | .ok slot =>
    -- a key object as secret or password unlocks the output to a key object
    let operation :=
      if step = .secret ∨ step = .password then
        { operation with canOutputKey := true }
      else operation
    unregisterExit env (psaKeyDerivationInputInternal P env operation step slot.attr.type slot.data)

def psaKeyAgreementRawInternal (alg : PsaAlgorithm) (privateKey : KeyObject)
    (peerKey : ByteString) : Except PsaStatus ByteString :=
  if ¬ psaAlgIsRawKeyAgreement alg then .error .errorNotSupported
  else
    match env.keyAgreement alg privateKey peerKey with
    | .error e => .error e.status
    | .ok sharedSecret => .ok sharedSecret

def psaKeyAgreementInternal (operation : PsaKeyDerivationOperation)
    (step : PsaKeyDerivationStep) (privateKey : KeyObject) (peerKey : ByteString) :
    InputResult :=
  match psaKeyAgreementRawInternal env (psaAlgKeyAgreementGetBase operation.alg)
      privateKey peerKey with
  | .error status => ⟨status, operation, none⟩
  | .ok sharedSecret =>
    psaKeyDerivationInputInternal P env operation step psaKeyTypeDerive sharedSecret

def psaKeyDerivationKeyAgreement (operation : PsaKeyDerivationOperation)
    (step : PsaKeyDerivationStep) (privateKey : PsaKeyId) (peerKey : ByteString) :
    InputResult :=
  if ¬ psaAlgIsKeyAgreement operation.alg then
    ⟨.errorInvalidArgument, operation, none⟩
  else
    match psaGetAndLockTransparentKeySlotWithPolicy env privateKey psaKeyUsageDerive
        operation.alg with
    | .error status => ⟨status, operation, none⟩
    | .ok slot =>
      let r :=
        if psaCryptoLocalAlloc env.localAlloc peerKey.length ≠ .success then
          ⟨.errorInsufficientMemory, operation, none⟩
        else psaKeyAgreementInternal P env operation step slot peerKey
      unregisterExit env
        (if r.status ≠ .success then inputExit env r.operation r.status
        else if step = .secret then
          { r with operation := { r.operation with canOutputKey := true } }
        else r)

end TfPsaCrypto
