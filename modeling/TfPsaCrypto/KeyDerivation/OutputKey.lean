import TfPsaCrypto.KeyDerivation.Input
import TfPsaCrypto.KeyDerivation.Output

/-!
# Key derivation to a key object

`psa_key_derivation_output_key_custom`, and `psa_generate_derived_key_internal` with the drawing of
elliptic curve keys.
-/

namespace TfPsaCrypto

open Bytes (ByteString)

/-! ## Key types -/

def psaKeyTypeEccPublicKeyBase : PsaKeyType := 0x4100
def psaKeyTypeEccCurveMask : PsaKeyType := 0x00ff
def psaKeyTypeCategoryFlagPair : PsaKeyType := 0x3000

def psaKeyTypeIsEcc (type : PsaKeyType) : Bool :=
  (type &&& ~~~psaKeyTypeCategoryFlagPair) &&& ~~~psaKeyTypeEccCurveMask
    = psaKeyTypeEccPublicKeyBase

def psaKeyTypeEccGetFamily (type : PsaKeyType) : BitVec 8 := type.setWidth 8

def psaEccFamilyIsWeierstrass (family : BitVec 8) : Bool := family &&& 0xc0 = 0

def keyTypeIsRawBytes (type : PsaKeyType) : Bool :=
  type &&& psaKeyTypeCategoryMask = 0x1000 ||
    type &&& psaKeyTypeCategoryMask = psaKeyTypeCategorySymmetric

def psaBitsToBytes (bits : Nat) : Nat := (bits + 7) / 8

/-! ## What a call depends on -/

/-- What `mbedtls_ecp_group_load` tells of a curve: the order `N`, of `nbits`
bits. -/
structure EcpGroup where
  n : Nat
  nbits : Nat
  nbits_pos : 0 < nbits

/-- The services that one `psa_key_derivation_output_key_custom` calls: its draws, the status of
the arithmetic on each, and the import, which answers with the size of the key. -/
structure OutputKeyEnv where
  startKeyCreation : PsaStatus
  ecpGroup : BitVec 8 → Nat → Except PsaError EcpGroup
  calloc : Bool
  output : Nat → OutputEnv
  mpi : Nat → PsaStatus
  importKey : PsaKeyAttributes → ByteString → PsaStatus × Nat
  finishKeyCreation : PsaStatus

variable (P : KdfPlatform) (env : OutputKeyEnv)

/-! ## Drawing the key material -/

/-- `psa_generate_derived_ecc_key_weierstrass_helper` from draw `i` on: draw `m_bytes` bytes until
they are in range; the capacity bounds the draws (`weierstrassLoop_fuel`). -/
def weierstrassLoop (group : EcpGroup) :
    (fuel i : Nat) → PsaKeyDerivationOperation → OutputResult
  | 0, _, operation => ⟨.errorCorruptionDetected, operation, []⟩
  | fuel + 1, i, operation =>
    let mBytes := psaBitsToBytes group.nbits
    let drawn := psaKeyDerivationOutputBytes P (env.output i) operation mBytes
    if drawn.status ≠ .success then drawn
    else if env.mpi i ≠ .success then ⟨env.mpi i, drawn.operation, []⟩
    else
      -- the excess bits of the first byte are cleared
      let k := Bytes.ofLE drawn.output.reverse % 2 ^ group.nbits
      if group.n - 2 < k then weierstrassLoop group fuel (i + 1) drawn.operation
      else ⟨.success, drawn.operation, Bytes.toBE mBytes (k + 1)⟩

def psaGenerateDerivedEccKeyWeierstrassHelper (type : PsaKeyType) (bits : Nat)
    (operation : PsaKeyDerivationOperation) : OutputResult :=
  match env.ecpGroup (psaKeyTypeEccGetFamily type) bits with
  | .error e => ⟨e.status, operation, []⟩
  | .ok group =>
    if ¬ env.calloc then ⟨.errorInsufficientMemory, operation, []⟩
    else weierstrassLoop P env group (operation.capacity + 1) 0 operation

/-- The bits of a Montgomery key: `low` in the first byte, `high` and the bit `set` in the last. -/
def montgomeryBits (data : ByteString) (low high set : UInt8) : ByteString :=
  let last := data.length - 1
  let data := data.set 0 (data.getD 0 0 &&& low)
  data.set last ((data.getD last 0 &&& high) ||| set)

def psaGenerateDerivedEccKeyMontgomeryHelper (bits : Nat)
    (operation : PsaKeyDerivationOperation) : OutputResult :=
  let draw (outputLength : Nat) (low high set : UInt8) : OutputResult :=
    if ¬ env.calloc then ⟨.errorInsufficientMemory, operation, []⟩
    else
      let drawn := psaKeyDerivationOutputBytes P (env.output 0) operation outputLength
      { drawn with output := montgomeryBits drawn.output low high set }
  if bits = 255 then draw 32 248 127 64
  else if bits = 448 then draw 56 252 255 128
  else ⟨.errorInvalidArgument, operation, []⟩

/-- The key material that `psa_generate_derived_key_internal` draws. -/
def generateDerivedKeyData (type : PsaKeyType) (bits : Nat)
    (operation : PsaKeyDerivationOperation) : OutputResult :=
  if psaKeyTypeIsPublicKey type then ⟨.errorInvalidArgument, operation, []⟩
  else if psaKeyTypeIsEcc type then
    if psaEccFamilyIsWeierstrass (psaKeyTypeEccGetFamily type) then
      psaGenerateDerivedEccKeyWeierstrassHelper P env type bits operation
    else psaGenerateDerivedEccKeyMontgomeryHelper P env bits operation
  else if keyTypeIsRawBytes type then
    if bits % 8 ≠ 0 then ⟨.errorInvalidArgument, operation, []⟩
    else if ¬ env.calloc then ⟨.errorInsufficientMemory, operation, []⟩
    else psaKeyDerivationOutputBytes P (env.output 0) operation (psaBitsToBytes bits)
  else ⟨.errorNotSupported, operation, []⟩

/-! ## `psa_key_derivation_output_key_custom` -/

def psaGenerateDerivedKeyInternal (attributes : PsaKeyAttributes)
    (operation : PsaKeyDerivationOperation) : OutputResult :=
  let drawn := generateDerivedKeyData P env attributes.type attributes.bits.toNat operation
  let imported := env.importKey attributes drawn.output
  if drawn.status ≠ .success then drawn
  else if imported.1 ≠ .success then ⟨imported.1, drawn.operation, []⟩
  else if imported.2 ≠ attributes.bits.toNat then
    ⟨.errorInvalidArgument, drawn.operation, []⟩
  else drawn

structure OutputKeyResult where
  status : PsaStatus
  operation : PsaKeyDerivationOperation
  key : Option KeyObject

def psaCustomKeyParametersAreDefault (customFlags customDataLength : Nat) : Bool :=
  customFlags = 0 && customDataLength = 0

def psaKeyDerivationOutputKeyCustom (attributes : PsaKeyAttributes)
    (operation : PsaKeyDerivationOperation) (customFlags customDataLength : Nat) :
    OutputKeyResult :=
  if attributes.bits = 0 then ⟨.errorInvalidArgument, operation, none⟩
  else if ¬ psaCustomKeyParametersAreDefault customFlags customDataLength then
    ⟨.errorInvalidArgument, operation, none⟩
  else if operation.alg = 0 then ⟨.errorBadState, operation, none⟩
  else if ¬ operation.canOutputKey then ⟨.errorNotPermitted, operation, none⟩
  else if env.startKeyCreation ≠ .success then
    ⟨env.startKeyCreation, operation, none⟩
  else
    let generated := psaGenerateDerivedKeyInternal P env attributes operation
    if generated.status ≠ .success then
      ⟨generated.status, generated.operation, none⟩
    else if env.finishKeyCreation ≠ .success then
      ⟨env.finishKeyCreation, generated.operation, none⟩
    else
      ⟨.success, generated.operation, some { attr := attributes, data := generated.output }⟩

def psaKeyDerivationOutputKey (attributes : PsaKeyAttributes)
    (operation : PsaKeyDerivationOperation) : OutputKeyResult :=
  psaKeyDerivationOutputKeyCustom P env attributes operation 0 0

end TfPsaCrypto
