import TfPsaCrypto.Builtin.EcpPrivateKey
import TfPsaCrypto.Core.Types
import TfPsaCrypto.Extras.Pk

/-!
# Interruptible key generation

`psa_generate_key` and the interruptible interface for ECC key pairs.
-/

namespace TfPsaCrypto.Ecp

open Bytes

/-! ## Attributes and the key store -/

/-- `psa_key_attributes_t`, as far as a key is generated. -/
structure EccKeyAttributes where
  type : Pk.PsaKeyType
  bits : Nat
  deriving DecidableEq, Repr

def psaKeyTypeEccGetFamily : Pk.PsaKeyType → Pk.EccFamily
  | .eccKeyPair family => family
  | .eccPublicKey family => family
  | _ => .none

def psaKeyTypeIsEcc : Pk.PsaKeyType → Bool
  | .eccKeyPair _ => true
  | .eccPublicKey _ => true
  | _ => false

def psaKeyTypeIsPublicKey : Pk.PsaKeyType → Bool
  | .rsaPublicKey => true
  | .eccPublicKey _ => true
  | _ => false

/-- What the key store does with the attributes before and after the driver, and the drivers of
the other key types. -/
structure KeyGenEnv (σ : Type) where
  modp : EcpGroupId → Option (Int → Int)
  psaStartKeyCreation : EccKeyAttributes → Except PsaStatus Unit
  psaFinishKeyCreation : EccKeyAttributes → Except PsaStatus Unit
  generateOther : EccKeyAttributes → σ → Except PsaStatus (ByteString × σ)
  importOther : EccKeyAttributes → ByteString → Except PsaStatus (ByteString × Nat)

def mbedtlsToPsaError : EcpError → PsaStatus
  | .badInputData => .errorInvalidArgument
  | .bufferTooSmall => .errorBufferTooSmall
  | .featureUnavailable => .errorNotSupported
  | .invalidKey => .errorInvalidArgument
  | .mpiBadInputData => .errorInvalidArgument
  | .mpiBufferTooSmall => .errorBufferTooSmall

def genErrorStatus : GenError PsaStatus → PsaStatus
  | .rng e => e
  | .ecp e => mbedtlsToPsaError e
  | .randomFailed => .errorInsufficientEntropy
  | .notAcceptable => .errorInvalidArgument

def psaBitsToBytes (bits : Nat) : Nat := (bits + 7) / 8

variable {σ : Type}

/-! ## `psa_generate_key` -/

def mbedtlsPsaEcpGenerateKey (modp : EcpGroupId → Option (Int → Int)) (rng : Rng σ PsaStatus)
    (attributes : EccKeyAttributes) (keyBufferSize : Nat) (s : σ) :
    Except PsaStatus (ByteString × σ) :=
  let grpId := Pk.mbedtlsEccGroupFromPsa (psaKeyTypeEccGetFamily attributes.type) attributes.bits
  if grpId = .none then .error .errorNotSupported
  else
    match mbedtlsEcpGroupLoad modp grpId with
    | .error e => .error (mbedtlsToPsaError e)
    | .ok grp =>
      match mbedtlsEcpGenPrivkey rng grp s with
      | .error e => .error (genErrorStatus e)
      | .ok (d, s) =>
        match mbedtlsEcpWriteKeyExt grp d keyBufferSize with
        | .error e => .error (mbedtlsToPsaError e)
        | .ok key => .ok (key, s)

/-- The key material that `psa_generate_key` stores; the buffer has the size of an exported key. -/
def psaGenerateKey (env : KeyGenEnv σ) (rng : Rng σ PsaStatus) (attributes : EccKeyAttributes)
    (s : σ) : Except PsaStatus (ByteString × σ) :=
  if attributes.bits = 0 then .error .errorInvalidArgument
  else if psaKeyTypeIsPublicKey attributes.type = true then .error .errorInvalidArgument
  else
    match env.psaStartKeyCreation attributes with
    | .error e => .error e
    | .ok () =>
      let r :=
        if psaKeyTypeIsEcc attributes.type = true then
          mbedtlsPsaEcpGenerateKey env.modp rng attributes (psaBitsToBytes attributes.bits) s
        else env.generateOther attributes s
      match r with
      | .error e => .error e
      | .ok (key, s) =>
        match env.psaFinishKeyCreation attributes with
        | .error e => .error e
        | .ok () => .ok (key, s)

/-! ## `psa_import_key` -/

/-- The size, rounded where it is sloppy. -/
def checkEccParameters : Pk.EccFamily → Nat → Option Nat
  | .secpR1, 192 => some 192
  | .secpR1, 224 => some 224
  | .secpR1, 256 => some 256
  | .secpR1, 384 => some 384
  | .secpR1, 521 => some 521
  | .secpR1, 528 => some 521
  | .brainpoolPR1, 256 => some 256
  | .brainpoolPR1, 384 => some 384
  | .brainpoolPR1, 512 => some 512
  | .montgomery, 448 => some 448
  | .montgomery, 255 => some 255
  | .montgomery, 256 => some 255
  | .secpK1, 192 => some 192
  | .secpK1, 256 => some 256
  | _, _ => none

/-- `mbedtls_psa_ecp_load_representation` of a key pair. -/
def mbedtlsPsaEcpLoadRepresentation (modp : EcpGroupId → Option (Int → Int))
    (family : Pk.EccFamily) (curveBits : Nat) (data : ByteString) :
    Except PsaStatus (EcpGroup × Nat) :=
  if curveBits ≠ 0 ∧ data.length ≠ psaBitsToBytes curveBits then .error .errorInvalidArgument
  else
    match checkEccParameters family (if curveBits ≠ 0 then curveBits else data.length * 8) with
    | none => .error .errorInvalidArgument
    | some curveBits =>
      let grpId := Pk.mbedtlsEccGroupFromPsa family curveBits
      if grpId = .none then .error .errorNotSupported
      else
        match mbedtlsEcpGroupLoad modp grpId with
        | .error e => .error (mbedtlsToPsaError e)
        | .ok grp =>
          match mbedtlsEcpReadKey modp grp.id data with
          | .error e => .error (mbedtlsToPsaError e)
          | .ok r => .ok r

/-- `mbedtls_psa_ecp_import_key` of a key pair: the material and its size in bits. -/
def mbedtlsPsaEcpImportKey (modp : EcpGroupId → Option (Int → Int))
    (attributes : EccKeyAttributes) (data : ByteString) (keyBufferSize : Nat) :
    Except PsaStatus (ByteString × Nat) :=
  let family := psaKeyTypeEccGetFamily attributes.type
  match mbedtlsPsaEcpLoadRepresentation modp family attributes.bits data with
  | .error e => .error e
  | .ok (grp, d) =>
    let bits := if family = .montgomery then grp.nbits + 1 else grp.nbits
    match mbedtlsEcpWriteKeyExt grp d keyBufferSize with
    | .error e => .error (mbedtlsToPsaError e)
    | .ok key => .ok (key, bits)

def psaMaxKeyBits : Nat := 0xfff8

def psaImportKey (env : KeyGenEnv σ) (attributes : EccKeyAttributes) (data : ByteString) :
    Except PsaStatus ByteString :=
  if data.length = 0 then .error .errorInvalidArgument
  else if data.length > (2 ^ 64 - 1) / 8 then .error .errorNotSupported
  else
    match env.psaStartKeyCreation attributes with
    | .error e => .error e
    | .ok () =>
      let r :=
        if psaKeyTypeIsEcc attributes.type = true then
          mbedtlsPsaEcpImportKey env.modp attributes data data.length
        else env.importOther attributes data
      match r with
      | .error e => .error e
      | .ok (key, bits) =>
        if attributes.bits ≠ 0 ∧ bits ≠ attributes.bits then .error .errorInvalidArgument
        else if bits > psaMaxKeyBits then .error .errorNotSupported
        else
          match env.psaFinishKeyCreation attributes with
          | .error e => .error e
          | .ok () => .ok key

/-! ## The interruptible interface -/

/-- `psa_generate_key_iop_t` with the context of the driver. -/
structure GenerateKeyIop where
  active : Bool
  errorOccurred : Bool
  attributes : EccKeyAttributes
  numOps : Nat
  ctxGrp : EcpGroup
  ctxNumOps : Nat

def mbedtlsEcpGroupInit : EcpGroup :=
  { id := .none, P := 0, A := none, B := 0, gX := none, gY := none, N := 0, pbits := 0
    nbits := 0, modp := none }

def psaGenerateKeyIopAbortInternal (operation : GenerateKeyIop) : GenerateKeyIop :=
  if operation.active = false then operation
  else
    { operation with
      active := false, attributes := { type := .none, bits := 0 }
      ctxGrp := mbedtlsEcpGroupInit, ctxNumOps := 0 }

/-- The exit of `psa_generate_key_iop_setup` with an error. -/
def GenerateKeyIop.failSetup (operation : GenerateKeyIop) (status : PsaStatus) :
    PsaStatus × GenerateKeyIop :=
  (status, psaGenerateKeyIopAbortInternal { operation with errorOccurred := true })

def psaGenerateKeyIopSetup (modp : EcpGroupId → Option (Int → Int)) (operation : GenerateKeyIop)
    (attributes : EccKeyAttributes) : PsaStatus × GenerateKeyIop :=
  if psaKeyTypeIsEcc attributes.type = false then operation.failSetup .errorNotSupported
  else if operation.active = true ∨ operation.errorOccurred = true then
    operation.failSetup .errorBadState
  else if attributes.bits = 0 then operation.failSetup .errorInvalidArgument
  else if psaKeyTypeIsPublicKey attributes.type = true then
    operation.failSetup .errorInvalidArgument
  else
    let operation :=
      { operation with
        attributes := attributes, numOps := 0, active := true, ctxGrp := mbedtlsEcpGroupInit }
    -- `mbedtls_psa_ecp_generate_key_iop_setup`
    let grpId := Pk.mbedtlsEccGroupFromPsa (psaKeyTypeEccGetFamily attributes.type) attributes.bits
    if grpId = .none then operation.failSetup .errorNotSupported
    else
      match mbedtlsEcpGroupLoad modp grpId with
      | .error e => operation.failSetup (mbedtlsToPsaError e)
      | .ok grp => (.success, { operation with ctxGrp := grp })

/-- `sizeof(key_data)`: `PSA_KEY_EXPORT_ECC_KEY_PAIR_MAX_SIZE` of the largest curve, plus 1. -/
def sizeofKeyData : Nat := psaBitsToBytes mbedtlsEcpMaxBits + 1

def mbedtlsPsaEcpGenerateKeyIopComplete (rng : Rng σ PsaStatus) (grp : EcpGroup)
    (keyOutputSize : Nat) (s : σ) : Except PsaStatus (ByteString × Nat × σ) :=
  let keyLen := psaBitsToBytes grp.nbits
  if keyLen > keyOutputSize then .error .errorBufferTooSmall
  else
    match mbedtlsEcpGenPrivkey rng grp s with
    | .error e => .error (genErrorStatus e)
    | .ok (d, s) =>
      if d ≥ 256 ^ keyOutputSize then .error .errorBufferTooSmall
      else .ok (toBE keyOutputSize d, keyLen, s)

def psaGenerateKeyIopComplete (env : KeyGenEnv σ) (rng : Rng σ PsaStatus)
    (operation : GenerateKeyIop) (s : σ) :
    Except PsaStatus (ByteString × σ) × GenerateKeyIop :=
  if operation.active = false ∨ operation.errorOccurred = true then
    (.error .errorBadState, operation)
  else
    match mbedtlsPsaEcpGenerateKeyIopComplete rng operation.ctxGrp sizeofKeyData s with
    | .error e =>
      (.error e, psaGenerateKeyIopAbortInternal { operation with errorOccurred := true })
    | .ok (keyData, keyLen, s) =>
      let operation := { operation with numOps := 1, ctxNumOps := 1 }
      match psaImportKey env operation.attributes
          ((keyData.drop (sizeofKeyData - keyLen)).take keyLen) with
      | .error e =>
        (.error e, psaGenerateKeyIopAbortInternal { operation with errorOccurred := true })
      | .ok key => (.ok (key, s), psaGenerateKeyIopAbortInternal operation)

/-! ## The parts that succeed -/

variable {modp : EcpGroupId → Option (Int → Int)} {family : Pk.EccFamily} {bits : Nat}
  {grp : EcpGroup}
variable {attributes : EccKeyAttributes} {data : ByteString} {d : Nat} {env : KeyGenEnv σ}

theorem drop_toBE {n k : Nat} (hk : k ≤ n) (v : Nat) : (toBE n v).drop (n - k) = toBE k v := by
  obtain ⟨m, rfl⟩ := Nat.exists_eq_add_of_le' hk
  rw [Nat.add_sub_cancel, toBE_add]
  exact List.drop_left' (length_toBE _ _)

theorem checkEccParameters_of_group (h : Pk.mbedtlsEccGroupFromPsa family bits ≠ .none) :
    checkEccParameters family bits = some bits := by
  unfold Pk.mbedtlsEccGroupFromPsa at h
  split at h <;> first | rfl | exact absurd rfl h

theorem id_of_load {id : EcpGroupId} (h : mbedtlsEcpGroupLoad modp id = .ok grp) :
    grp.id = id := by
  cases id <;> cases h <;> rfl

theorem type_montgomery_iff
    (h : mbedtlsEcpGroupLoad modp (Pk.mbedtlsEccGroupFromPsa family bits) = .ok grp) :
    mbedtlsEcpGetType grp = .montgomery ↔ family = .montgomery := by
  unfold Pk.mbedtlsEccGroupFromPsa at h
  split at h <;> cases h
  case h_7 => exact iff_of_true rfl rfl
  case h_8 => exact iff_of_true rfl rfl
  all_goals exact iff_of_false nofun nofun

/-- The attributes of a key pair on the supported curve `grp`. -/
structure SupportedKeyPair (modp : EcpGroupId → Option (Int → Int))
    (attributes : EccKeyAttributes) (grp : EcpGroup) : Prop where
  ecc : psaKeyTypeIsEcc attributes.type = true
  pair : psaKeyTypeIsPublicKey attributes.type = false
  bits : attributes.bits ≠ 0
  group :
    Pk.mbedtlsEccGroupFromPsa (psaKeyTypeEccGetFamily attributes.type) attributes.bits ≠ .none
  load :
    mbedtlsEcpGroupLoad modp
      (Pk.mbedtlsEccGroupFromPsa (psaKeyTypeEccGetFamily attributes.type) attributes.bits) =
      .ok grp

theorem psaGenerateKeyIopSetup_success {operation operation' : GenerateKeyIop}
    (h : psaGenerateKeyIopSetup modp operation attributes = (.success, operation')) :
    operation'.attributes = attributes ∧ SupportedKeyPair modp attributes operation'.ctxGrp := by
  have hfail : ∀ (op : GenerateKeyIop) (status : PsaStatus), status ≠ .success →
      op.failSetup status ≠ (.success, operation') := by
    intro op status hne heq
    exact hne (congrArg Prod.fst heq)
  have herror : ∀ e, mbedtlsToPsaError e ≠ .success := by
    intro e
    cases e <;> nofun
  unfold psaGenerateKeyIopSetup at h
  split at h
  · exact absurd h (hfail _ _ nofun)
  next hecc =>
  split at h
  · exact absurd h (hfail _ _ nofun)
  split at h
  · exact absurd h (hfail _ _ nofun)
  next hbits =>
  split at h
  · exact absurd h (hfail _ _ nofun)
  next hpair =>
  dsimp only at h
  split at h
  · exact absurd h (hfail _ _ nofun)
  next hgroup =>
  split at h
  · next e _ => exact absurd h (hfail _ _ (herror e))
  next grp hload =>
  obtain rfl := congrArg Prod.snd h
  exact ⟨rfl, by simpa using hecc, by simpa using hpair, hbits, hgroup, hload⟩

structure Imported (modp : EcpGroupId → Option (Int → Int)) (attributes : EccKeyAttributes)
    (grp : EcpGroup) (data key : ByteString) (d : Nat) : Prop where
  length : data.length = psaBitsToBytes attributes.bits
  scalar : ecpReadScalar grp data = .ok d
  check : mbedtlsEcpCheckPrivkey grp d = .ok ()
  write : mbedtlsEcpWriteKeyExt grp d data.length = .ok key

theorem mbedtlsEcpReadKey_ok {id : EcpGroupId} {grp' : EcpGroup}
    (hload : mbedtlsEcpGroupLoad modp id = .ok grp)
    (h : mbedtlsEcpReadKey modp id data = .ok (grp', d)) :
    grp' = grp ∧ ecpReadScalar grp data = .ok d ∧ mbedtlsEcpCheckPrivkey grp d = .ok () := by
  unfold mbedtlsEcpReadKey at h
  rw [hload] at h
  dsimp only at h
  split at h
  · cases h
  next e hscalar =>
  split at h
  · cases h
  next hcheck =>
  cases h
  exact ⟨rfl, hscalar, hcheck⟩

theorem mbedtlsPsaEcpImportKey_ok {key : ByteString} {bits : Nat}
    (hkey : SupportedKeyPair modp attributes grp)
    (h : mbedtlsPsaEcpImportKey modp attributes data data.length = .ok (key, bits)) :
    ∃ d, Imported modp attributes grp data key d := by
  unfold mbedtlsPsaEcpImportKey mbedtlsPsaEcpLoadRepresentation at h
  dsimp only at h
  rw [if_pos hkey.bits, checkEccParameters_of_group hkey.group] at h
  dsimp only at h
  rw [if_neg hkey.group, hkey.load] at h
  dsimp only at h
  split at h
  · cases h
  next grp' d hrep =>
  split at hrep
  · cases hrep
  next hlength =>
  split at hrep
  · cases hrep
  next r hread =>
  cases hrep
  rw [id_of_load hkey.load] at hread
  obtain ⟨rfl, hscalar, hcheck⟩ := mbedtlsEcpReadKey_ok hkey.load hread
  split at h
  · cases h
  next hwrite =>
  cases h
  refine ⟨d, ?_, hscalar, hcheck, hwrite⟩
  by_contra hne
  exact hlength ⟨hkey.bits, hne⟩

theorem psaImportKey_ok {key : ByteString} (hkey : SupportedKeyPair env.modp attributes grp)
    (h : psaImportKey env attributes data = .ok key) :
    env.psaStartKeyCreation attributes = .ok () ∧ env.psaFinishKeyCreation attributes = .ok () ∧
      ∃ d, Imported env.modp attributes grp data key d := by
  unfold psaImportKey at h
  split at h
  · cases h
  split at h
  · cases h
  split at h
  · cases h
  next hstart =>
  rw [if_pos hkey.ecc] at h
  dsimp only at h
  split at h
  · cases h
  next key' bits himport =>
  split at h
  · cases h
  split at h
  · cases h
  split at h
  · cases h
  next hfinish =>
  cases h
  exact ⟨hstart, hfinish, mbedtlsPsaEcpImportKey_ok hkey himport⟩

/-! ## The interruptible interface and `psa_generate_key` -/

variable {rng : Rng σ PsaStatus}

theorem psaGenerateKeyIopComplete_ok {operation : GenerateKeyIop} {s s' : σ} {material : ByteString}
    (h : (psaGenerateKeyIopComplete env rng operation s).1 = .ok (material, s')) :
    ∃ d, mbedtlsEcpGenPrivkey rng operation.ctxGrp s = .ok (d, s') ∧
      psaImportKey env operation.attributes (toBE operation.ctxGrp.keyLen d) = .ok material := by
  unfold psaGenerateKeyIopComplete mbedtlsPsaEcpGenerateKeyIopComplete at h
  dsimp only at h
  split at h
  · cases h
  split at h
  · cases h
  next keyData keyLen s₁ hdriver =>
  split at hdriver
  · cases hdriver
  next hlen =>
  split at hdriver
  · cases hdriver
  next d s₂ hgen =>
  split at hdriver
  · cases hdriver
  cases hdriver
  have hbytes : ((toBE sizeofKeyData d).drop
      (sizeofKeyData - psaBitsToBytes operation.ctxGrp.nbits)).take
        (psaBitsToBytes operation.ctxGrp.nbits) = toBE operation.ctxGrp.keyLen d := by
    rw [drop_toBE (Nat.le_of_not_lt hlen)]
    exact List.take_of_length_le (length_toBE _ _).le
  rw [hbytes] at h
  split at h
  · cases h
  next key himport =>
  cases h
  exact ⟨d, hgen, himport⟩

theorem psaGenerateKey_ok {s s' : σ} (hkey : SupportedKeyPair env.modp attributes grp)
    (hstart : env.psaStartKeyCreation attributes = .ok ())
    (hfinish : env.psaFinishKeyCreation attributes = .ok ())
    (hlen : grp.keyLen = psaBitsToBytes attributes.bits)
    (hgen : mbedtlsEcpGenPrivkey rng grp s = .ok (d, s')) :
    psaGenerateKey env rng attributes s = .ok (ecpKeyBytes grp d, s') := by
  have hgrp := loadedGroup_of_load hkey.load
  have hwrite := mbedtlsEcpWriteKeyExt_eq hgrp (mbedtlsEcpGenPrivkey_check hgrp hgen) hlen.le
  unfold psaGenerateKey mbedtlsPsaEcpGenerateKey
  rw [if_neg hkey.bits, if_neg (by rw [hkey.pair]; decide), hstart]
  rw [if_pos hkey.ecc, if_neg hkey.group, hkey.load]
  dsimp only
  rw [hgen]
  dsimp only
  rw [hwrite]
  rw [hfinish]

theorem ecpReadScalar_toBE_iff {e : Nat} (hgrp : LoadedGroup grp)
    (hd : mbedtlsEcpCheckPrivkey grp d = .ok ())
    (hread : ecpReadScalar grp (toBE grp.keyLen d) = .ok e) :
    e = d ↔ (mbedtlsEcpGetType grp = .montgomery →
      (toBE grp.keyLen d).reverse = toBE grp.keyLen d) := by
  have hlt := lt_keyLen_of_check hgrp hd
  unfold ecpReadScalar at hread
  cases hgrp with
  | weierstrass htype _ =>
    rw [htype] at hread ⊢
    cases hread
    rw [ofBE_toBE, Nat.mod_eq_of_lt hlt]
    exact iff_of_true rfl nofun
  | curve25519 htype hid hbits =>
    have hscalar := montgomeryScalar_of_check htype hd
    have hlen : grp.keyLen = 32 := by
      unfold EcpGroup.keyLen
      rw [hbits]
    rw [hbits] at hscalar
    rw [htype, hlen] at hread ⊢
    rw [if_pos hid, if_neg (by simp [ecpCurve25519KeySize])] at hread
    cases hread
    rw [maskCurve25519_reversed_iff hscalar]
    exact ⟨fun h _ => h, fun h => h rfl⟩
  | curve448 htype hid hbits =>
    have hscalar := montgomeryScalar_of_check htype hd
    have hlen : grp.keyLen = 56 := by
      unfold EcpGroup.keyLen
      rw [hbits]
    rw [hbits] at hscalar
    rw [htype, hlen] at hread ⊢
    rw [if_neg (by rw [hid]; decide), if_pos hid, if_neg (by simp [ecpCurve448KeySize])] at hread
    cases hread
    rw [maskCurve448_reversed_iff hscalar]
    exact ⟨fun h _ => h, fun h => h rfl⟩

def MirroredDraw {ε : Type} (rng : Rng σ ε) (bits : Nat) (s : σ) : Prop :=
  ∀ bytes s', rng.draw s (psaBitsToBytes bits) = .ok (bytes, s') →
    let n := psaBitsToBytes bits
    let key := toBE n (genPrivkeyMxBits (bits - 1) (ofBE bytes >>> (8 * n - bits)))
    key.reverse = key

theorem bits_of_montgomery
    (h : mbedtlsEcpGroupLoad modp (Pk.mbedtlsEccGroupFromPsa .montgomery bits) = .ok grp) :
    bits = grp.nbits + 1 ∧ psaBitsToBytes bits = grp.nbits / 8 + 1 := by
  have hbits : bits = grp.nbits + 1 := by
    unfold Pk.mbedtlsEccGroupFromPsa at h
    split at h <;> cases h
    case h_7 => rfl
    case h_8 => rfl
    all_goals contradiction
  refine ⟨hbits, ?_⟩
  rw [hbits]
  exact Nat.add_div_right grp.nbits (Nat.succ_pos 7)

theorem mirroredDraw_iff {s s' : σ}
    (hload : mbedtlsEcpGroupLoad modp (Pk.mbedtlsEccGroupFromPsa .montgomery bits) = .ok grp)
    (hlen : grp.keyLen = psaBitsToBytes bits)
    (hgen : mbedtlsEcpGenPrivkey rng grp s = .ok (d, s')) :
    MirroredDraw rng bits s ↔ (toBE grp.keyLen d).reverse = toBE grp.keyLen d := by
  have htype := (type_montgomery_iff hload).mpr rfl
  obtain ⟨hbits, hbytes⟩ := bits_of_montgomery hload
  unfold mbedtlsEcpGenPrivkey mbedtlsEcpGenPrivkeyMx at hgen
  rw [htype, ← hbytes] at hgen
  dsimp only at hgen
  split at hgen
  · cases hgen
  next bytes s₁ hdraw =>
  cases hgen
  have hshift : 8 * psaBitsToBytes bits - bits = 8 * psaBitsToBytes bits - grp.nbits - 1 := by
    omega
  have hhigh : bits - 1 = grp.nbits := by omega
  unfold MirroredDraw
  dsimp only
  rw [hlen, hshift, hhigh]
  constructor
  · intro h
    exact h bytes s' hdraw
  · intro h bytes' s'' hdraw'
    rw [hdraw] at hdraw'
    cases hdraw'
    exact h

/-- The key is the one of `psa_generate_key` on the same bytes, and reads back as their scalar. -/
def GeneratesSame (env : KeyGenEnv σ) (rng : Rng σ PsaStatus) (attributes : EccKeyAttributes)
    (s : σ) (material : ByteString) : Prop :=
  ∃ grp d s',
    mbedtlsEcpGroupLoad env.modp
      (Pk.mbedtlsEccGroupFromPsa (psaKeyTypeEccGetFamily attributes.type) attributes.bits) =
      .ok grp ∧
    mbedtlsEcpGenPrivkey rng grp s = .ok (d, s') ∧
    mbedtlsEcpWriteKeyExt grp d (psaBitsToBytes attributes.bits) = .ok material ∧
    psaGenerateKey env rng attributes s = .ok (material, s') ∧
    mbedtlsEcpReadKey env.modp grp.id material = .ok (grp, d)

/-- The interruptible interface generates the key of `psa_generate_key`, on a Montgomery curve only
where the byte order of the scalar does not matter. -/
theorem generateKeyIop_same_iff (env : KeyGenEnv σ) (rng : Rng σ PsaStatus)
    (attributes : EccKeyAttributes) (operation operation' : GenerateKeyIop) (s s' : σ)
    (material : ByteString)
    (hsetup : psaGenerateKeyIopSetup env.modp operation attributes = (.success, operation'))
    (hcomplete : (psaGenerateKeyIopComplete env rng operation' s).1 = .ok (material, s')) :
    GeneratesSame env rng attributes s material ↔
      (psaKeyTypeEccGetFamily attributes.type = .montgomery →
        MirroredDraw rng attributes.bits s) := by
  obtain ⟨hattributes, hkey⟩ := psaGenerateKeyIopSetup_success hsetup
  have hgrp := loadedGroup_of_load hkey.load
  obtain ⟨d, hgen, himport⟩ := psaGenerateKeyIopComplete_ok hcomplete
  rw [hattributes] at himport
  obtain ⟨hstart, hfinish, e, hlength, hscalar, hcheck, hwrite⟩ := psaImportKey_ok hkey himport
  rw [length_toBE] at hlength hwrite
  have hd := mbedtlsEcpGenPrivkey_check hgrp hgen
  have hmaterial : material = ecpKeyBytes operation'.ctxGrp e := by
    rw [mbedtlsEcpWriteKeyExt_eq hgrp hcheck le_rfl] at hwrite
    exact (Except.ok.inj hwrite).symm
  have hid : operation'.ctxGrp.id = _ := id_of_load hkey.load
  -- The stored key is read as `e`, the key of `psa_generate_key` as the scalar `d`.
  have hsame : GeneratesSame env rng attributes s material ↔ e = d := by
    constructor
    · rintro ⟨grp, d', s'', hload, hgen', -, -, hread⟩
      rw [hkey.load] at hload
      cases hload
      rw [hgen] at hgen'
      cases hgen'
      rw [hmaterial, hid, mbedtlsEcpReadKey_keyBytes hkey.load hcheck] at hread
      cases hread
      rfl
    · rintro rfl
      refine ⟨operation'.ctxGrp, e, s', hkey.load, hgen, ?_, ?_, ?_⟩
      · rw [hmaterial]
        exact mbedtlsEcpWriteKeyExt_eq hgrp hcheck hlength.le
      · rw [hmaterial]
        exact psaGenerateKey_ok hkey hstart hfinish hlength hgen
      · rw [hmaterial, hid]
        exact mbedtlsEcpReadKey_keyBytes hkey.load hcheck
  rw [hsame, ecpReadScalar_toBE_iff hgrp hd hscalar, type_montgomery_iff hkey.load]
  refine forall_congr' fun hfamily => ?_
  have hload := hkey.load
  rw [hfamily] at hload
  exact (mirroredDraw_iff hload hlength hgen).symm

/-- A random source that returns the byte `b` again and again. -/
def constantRng (b : UInt8) : Rng Unit PsaStatus where
  draw _ n := .ok (List.replicate n b, ())
  length_draw := by
    intro _ _ n _ h
    cases h
    exact List.length_replicate

def plainKeyGenEnv : KeyGenEnv Unit where
  modp _ := none
  psaStartKeyCreation _ := .ok ()
  psaFinishKeyCreation _ := .ok ()
  generateOther _ _ := .error .errorNotSupported
  importOther _ _ := .error .errorNotSupported

def curve25519Pair : EccKeyAttributes := { type := .eccKeyPair .montgomery, bits := 255 }

def inactiveIop : GenerateKeyIop :=
  { active := false, errorOccurred := false, attributes := { type := .none, bits := 0 }
    numOps := 0, ctxGrp := mbedtlsEcpGroupInit, ctxNumOps := 0 }

def curve25519Iop : GenerateKeyIop :=
  { inactiveIop with
    active := true, attributes := curve25519Pair, ctxGrp := ecpUseCurve25519 none }

/-- The bytes of the scalar `0x4040…40` are the same in both orders. -/
theorem generateKeyIop_same_iff_mirrored :
    GeneratesSame plainKeyGenEnv (constantRng 0x80) curve25519Pair () (List.replicate 32 0x40) ↔
      (psaKeyTypeEccGetFamily curve25519Pair.type = .montgomery →
        MirroredDraw (constantRng 0x80) curve25519Pair.bits ()) :=
  generateKeyIop_same_iff plainKeyGenEnv (constantRng 0x80) curve25519Pair inactiveIop
    curve25519Iop () () (List.replicate 32 0x40) rfl (by decide +kernel)

/-- The random bytes are all 1: the scalar is `0x4080…80`, the stored key that of
`0x4080…8040`. -/
theorem generateKeyIop_differs :
    psaGenerateKeyIopSetup plainKeyGenEnv.modp inactiveIop curve25519Pair =
        (.success, curve25519Iop) ∧
      (psaGenerateKeyIopComplete plainKeyGenEnv (constantRng 1) curve25519Iop ()).1 =
        .ok (0x40 :: (List.replicate 30 0x80 ++ [0x40]), ()) ∧
      psaGenerateKey plainKeyGenEnv (constantRng 1) curve25519Pair () =
        .ok (List.replicate 31 0x80 ++ [0x40], ()) ∧
      ¬ GeneratesSame plainKeyGenEnv (constantRng 1) curve25519Pair ()
        (0x40 :: (List.replicate 30 0x80 ++ [0x40])) := by
  have hgenerate : psaGenerateKey plainKeyGenEnv (constantRng 1) curve25519Pair () =
      .ok (List.replicate 31 0x80 ++ [0x40], ()) := by decide +kernel
  refine ⟨rfl, by decide +kernel, hgenerate, ?_⟩
  rintro ⟨_, _, _, -, -, -, hsame, -⟩
  rw [hgenerate] at hsame
  have hbytes : List.replicate 31 0x80 ++ [0x40] =
      (0x40 :: (List.replicate 30 0x80 ++ [0x40]) : ByteString) :=
    congrArg Prod.fst (Except.ok.inj hsame)
  exact absurd hbytes (by decide)

end TfPsaCrypto.Ecp
