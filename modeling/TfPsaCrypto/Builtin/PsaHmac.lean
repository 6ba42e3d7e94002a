import TfPsaCrypto.Extras.MdHmac
import TfPsaCrypto.Core.Algorithm

/-!
# HMAC in the PSA driver

The HMAC part of `psa_crypto_mac.c` and the MAC calls of `psa_crypto.c` that lead to it, over any
hashes, with a key whose policy is checked.
-/

namespace TfPsaCrypto.PsaHmac

open Bytes (ByteString storeAt storeAt_middle)
open Fallible (read update fail)

/-! ## Operations -/

structure PsaHashes (τ : Type) where
  setup : PsaAlgorithm → Fallible τ PsaStatus Unit
  update : ByteString → Fallible τ PsaStatus Unit
  finish : Fallible τ PsaStatus ByteString
  abort : τ → τ
  compute : PsaAlgorithm → ByteString → Except PsaStatus ByteString
  /-- `PSA_HASH_LENGTH`. -/
  length : PsaAlgorithm → Nat
  /-- `PSA_HASH_BLOCK_LENGTH`. -/
  blockLength : PsaAlgorithm → Nat
  /-- `PSA_HASH_MAX_SIZE`, which is also `PSA_MAC_MAX_SIZE`. -/
  hashMaxSize : Nat
  /-- `PSA_HMAC_MAX_HASH_BLOCK_SIZE`. -/
  hmacMaxHashBlockSize : Nat

variable {τ : Type}

def PsaHashes.multipart (hashes : PsaHashes τ) (alg : PsaAlgorithm) : Multipart τ PsaStatus where
  starts := hashes.setup alg
  update := hashes.update
  finish := hashes.finish

structure HmacOperation (τ : Type) where
  alg : PsaAlgorithm
  hashCtx : τ
  opad : ByteString

structure MacOperation (τ : Type) where
  alg : PsaAlgorithm
  hmac : HmacOperation τ

structure PsaMacOperation (τ : Type) where
  id : Nat
  macSize : Nat
  isSign : Bool
  ctx : MacOperation τ

def onHash {α : Type} (call : Fallible τ PsaStatus α) :
    Fallible (HmacOperation τ) PsaStatus α := fun hmac =>
  ((call hmac.hashCtx).1, { hmac with hashCtx := (call hmac.hashCtx).2 })

def onHmac {α : Type} (call : Fallible (HmacOperation τ) PsaStatus α) :
    Fallible (MacOperation τ) PsaStatus α := fun operation =>
  ((call operation.hmac).1, { operation with hmac := (call operation.hmac).2 })

def onDriver {α : Type} (call : Fallible (MacOperation τ) PsaStatus α) :
    Fallible (PsaMacOperation τ) PsaStatus α := fun operation =>
  ((call operation.ctx).1, { operation with ctx := (call operation.ctx).2 })

def orAbort {ω α : Type} (abort : ω → ω) (call : Fallible ω PsaStatus α) :
    Fallible ω PsaStatus α := fun operation =>
  match call operation with
  | (.ok a, operation') => (.ok a, operation')
  | (.error status, operation') => (.error status, abort operation')

variable (hashes : PsaHashes τ)

/-! ## HMAC -/

def psaHmacAbortInternal (hmac : HmacOperation τ) : HmacOperation τ :=
  { hmac with opad := hmac.opad.map fun _ => 0, hashCtx := hashes.abort hmac.hashCtx }

def ipadOf (ipad : ByteString) (keyLength blockSize : Nat) : ByteString :=
  let ipad := storeAt ipad 0 ((ipad.take keyLength).map (· ^^^ 0x36))
  storeAt ipad keyLength (List.replicate (blockSize - keyLength) 0x36)

def opadOf (opad ipad : ByteString) (keyLength blockSize : Nat) : ByteString :=
  let opad := storeAt opad 0 ((ipad.take keyLength).map (· ^^^ 0x36 ^^^ 0x5C))
  storeAt opad keyLength (List.replicate (blockSize - keyLength) 0x5C)

/-- The key that `psa_hmac_setup_internal` copies to the buffer of the inner pad. -/
def hmacKey (hashAlg : PsaAlgorithm) (key : ByteString) : Except PsaStatus ByteString :=
  if hashes.blockLength hashAlg < key.length then hashes.compute hashAlg key else .ok key

/-- `ipad` is the contents of its buffer before the call. -/
def psaHmacSetupInternal (ipad key : ByteString) (hashAlg : PsaAlgorithm) :
    Fallible (HmacOperation τ) PsaStatus Unit := do
  let blockSize := hashes.blockLength hashAlg
  update fun hmac => { hmac with alg := hashAlg }
  if hashes.hmacMaxHashBlockSize < blockSize ∨ blockSize < hashes.length hashAlg then
    fail .errorNotSupported
  else do
    let key ← Fallible.ofExcept (hmacKey hashes hashAlg key)
    let ipad := ipadOf (storeAt ipad 0 key) key.length blockSize
    update fun hmac => { hmac with opad := opadOf hmac.opad ipad key.length blockSize }
    onHash (hashes.setup hashAlg)
    onHash (hashes.update (ipad.take blockSize))

def psaHmacUpdateInternal (data : ByteString) : Fallible (HmacOperation τ) PsaStatus Unit :=
  onHash (hashes.update data)

def psaHmacFinishInternal (macSize : Nat) : Fallible (HmacOperation τ) PsaStatus ByteString := do
  let hmac ← read
  let tmp ← onHash hashes.finish
  onHash (hashes.setup hmac.alg)
  onHash (hashes.update (hmac.opad.take (hashes.blockLength hmac.alg)))
  onHash (hashes.update tmp)
  let tmp ← onHash hashes.finish
  return tmp.take macSize

/-! ## The driver -/

def mbedtlsPsaMacAbort (operation : MacOperation τ) : MacOperation τ :=
  if operation.alg = 0 then operation
  else { alg := 0, hmac := psaHmacAbortInternal hashes operation.hmac }

/-- `mbedtls_psa_mac_sign_setup` and `mbedtls_psa_mac_verify_setup`. -/
def mbedtlsPsaMacSetup (ipad key : ByteString) (alg : PsaAlgorithm) :
    Fallible (MacOperation τ) PsaStatus Unit := do
  let operation ← read
  if operation.alg ≠ 0 then fail .errorBadState
  else if psaAlgIsHmac alg then do
    update fun operation => { alg := alg, hmac := { operation.hmac with alg := 0 } }
    orAbort (mbedtlsPsaMacAbort hashes)
      (onHmac (psaHmacSetupInternal hashes ipad key (psaAlgHmacGetHash alg)))
  else fail .errorNotSupported

def mbedtlsPsaMacUpdate (input : ByteString) : Fallible (MacOperation τ) PsaStatus Unit := do
  let operation ← read
  if operation.alg = 0 then fail .errorBadState
  else if psaAlgIsHmac operation.alg then onHmac (psaHmacUpdateInternal hashes input)
  else fail .errorBadState

def psaMacFinishInternal (macSize : Nat) : Fallible (MacOperation τ) PsaStatus ByteString := do
  let operation ← read
  if psaAlgIsHmac operation.alg then onHmac (psaHmacFinishInternal hashes macSize)
  else fail .errorBadState

def mbedtlsPsaMacVerifyFinish (mac : ByteString) : Fallible (MacOperation τ) PsaStatus Unit := do
  let operation ← read
  if operation.alg = 0 then fail .errorBadState
  else if hashes.hashMaxSize < mac.length then fail .errorInvalidArgument
  else do
    let actualMac ← psaMacFinishInternal hashes mac.length
    if mac ≠ actualMac then fail .errorInvalidSignature

/-! ## The core -/

def mbedTlsDriverId : Nat := 1

def psaMacAbort (operation : PsaMacOperation τ) : PsaMacOperation τ :=
  if operation.id = 0 then operation
  else { id := 0, macSize := 0, isSign := false, ctx := mbedtlsPsaMacAbort hashes operation.ctx }

/-- `PSA_MAC_LENGTH` of an HMAC algorithm, over the lengths of the hashes. -/
def macLength (alg : PsaAlgorithm) : Nat :=
  if alg &&& lengthMask ≠ 0 then psaMacTruncatedLength alg
  else hashes.length (psaAlgHmacGetHash alg)

/-- `psa_mac_finalize_alg_and_key_validation` for `PSA_KEY_TYPE_HMAC`; the length is kept in a byte.
-/
def psaMacFinalizeAlgAndKeyValidation (alg : PsaAlgorithm) :
    Fallible (PsaMacOperation τ) PsaStatus Unit :=
  if !psaAlgIsMac alg ∨ !psaAlgIsHmac alg then fail .errorInvalidArgument
  else do
    let macSize := macLength hashes alg % 256
    update fun operation => { operation with macSize := macSize }
    if macSize < 4 then fail .errorNotSupported
    else if macLength hashes (psaAlgFullLengthMac alg) < macSize then fail .errorInvalidArgument
    else if hashes.hashMaxSize < macSize then fail .errorNotSupported

/-- `zeroed` is the operation of the driver as `memset` leaves it. -/
def psaMacSetup (zeroed : MacOperation τ) (ipad key : ByteString) (alg : PsaAlgorithm)
    (isSign : Bool) : Fallible (PsaMacOperation τ) PsaStatus Unit :=
  orAbort (psaMacAbort hashes) do
    let operation ← read
    if operation.id ≠ 0 then fail .errorBadState
    else do
      update fun operation => { operation with ctx := zeroed }
      psaMacFinalizeAlgAndKeyValidation hashes alg
      update fun operation => { operation with isSign := isSign }
      onDriver (mbedtlsPsaMacSetup hashes ipad key alg)
      update fun operation => { operation with id := mbedTlsDriverId }

/-- `allocated` tells whether the local copy of the input could be made. -/
def psaMacUpdate (allocated : Bool) (input : ByteString) :
    Fallible (PsaMacOperation τ) PsaStatus Unit := do
  let operation ← read
  if operation.id = 0 then fail .errorBadState
  else if input = [] then return ()
  else if !allocated then fail .errorInsufficientMemory
  else orAbort (psaMacAbort hashes) (onDriver (mbedtlsPsaMacUpdate hashes input))

def psaMacVerifyFinish (allocated : Bool) (mac : ByteString) :
    Fallible (PsaMacOperation τ) PsaStatus Unit := fun operation =>
  let body : Fallible (PsaMacOperation τ) PsaStatus Unit :=
    if operation.id = 0 then fail .errorBadState
    else if operation.isSign then fail .errorBadState
    else if operation.macSize ≠ mac.length then fail .errorInvalidSignature
    else if !allocated then fail .errorInsufficientMemory
    else onDriver (mbedtlsPsaMacVerifyFinish hashes mac)
  ((body operation).1, psaMacAbort hashes (body operation).2)

/-! ## The pads -/

section Pads

variable {ipad opad z key : ByteString} {B : Nat}

theorem cut_block (buffer : ByteString) (h : key.length ≤ B) (hB : B ≤ buffer.length) :
    ∃ x y z, buffer = [] ++ (x ++ (y ++ z)) ∧ x.length = key.length ∧
      y.length = B - key.length := by
  refine ⟨buffer.take key.length, (buffer.drop key.length).take (B - key.length),
    (buffer.drop key.length).drop (B - key.length), ?_, ?_, ?_⟩
  · rw [List.take_append_drop, List.take_append_drop, List.nil_append]
  · exact List.length_take_of_le (h.trans hB)
  · rw [List.length_take, List.length_drop]
    omega

theorem ipadOf_eq (h : key.length ≤ B) (hB : B ≤ ipad.length) :
    ∃ z, ipadOf (storeAt ipad 0 key) key.length B = Hmac.pad B 0x36 key ++ z := by
  obtain ⟨x, y, z, hbuffer, hx, hy⟩ := cut_block ipad h hB
  have hxored : (key.map (· ^^^ (0x36 : UInt8))).length = key.length := List.length_map _
  refine ⟨z, ?_⟩
  unfold ipadOf Hmac.pad
  rw [hbuffer, storeAt_middle List.length_nil hx, List.nil_append, List.take_left,
    ← List.nil_append (key ++ (y ++ z)), storeAt_middle List.length_nil hxored.symm,
    List.nil_append, storeAt_middle hxored (hy.trans List.length_replicate.symm),
    List.append_assoc]

theorem opadOf_eq (h : key.length ≤ B) (hB : B ≤ opad.length) :
    ∃ z', opadOf opad (Hmac.pad B 0x36 key ++ z) key.length B = Hmac.pad B 0x5c key ++ z' := by
  obtain ⟨x, y, z', hbuffer, hx, hy⟩ := cut_block opad h hB
  have hxored : (key.map (· ^^^ (0x5c : UInt8))).length = key.length := List.length_map _
  -- the two constants of the source cancel the inner pad
  have hflip : ((Hmac.pad B 0x36 key ++ z).take key.length).map (· ^^^ 0x36 ^^^ 0x5C) =
      key.map (· ^^^ (0x5c : UInt8)) := by
    unfold Hmac.pad
    rw [List.append_assoc, List.take_left' (List.length_map _), List.map_map]
    apply List.map_congr_left
    intro b _
    show b ^^^ 0x36 ^^^ 0x36 ^^^ 0x5C = b ^^^ 0x5c
    rw [UInt8.xor_assoc b, UInt8.xor_self, UInt8.xor_zero]
  refine ⟨z', ?_⟩
  unfold opadOf
  rw [hflip, hbuffer, storeAt_middle List.length_nil (hx.trans hxored.symm), List.nil_append,
    storeAt_middle hxored (hy.trans List.length_replicate.symm), ← List.append_assoc]
  rfl

end Pads

/-! ## HMAC over a hash that computes `H` -/

variable {α : Type} {r : Except PsaStatus α} {operation : PsaMacOperation τ}

/-- The hash `alg` computes `H` for every chunking, from every operation in `Inactive`; it fits
in its own blocks and in the buffers that are sized for the hashes. -/
structure PsaHashes.Implements (hashes : PsaHashes τ) (Inactive : τ → Prop) (alg : PsaAlgorithm)
    (H : ByteString → ByteString) : Prop where
  computes : (hashes.multipart alg).Computes Inactive H
  compute_eq : ∀ message, hashes.compute alg message = .ok (H message)
  length_eq : ∀ message, (H message).length = hashes.length alg
  length_le : hashes.length alg ≤ hashes.blockLength alg
  blockLength_le : hashes.blockLength alg ≤ hashes.hmacMaxHashBlockSize
  hashLength_le : hashes.length alg ≤ hashes.hashMaxSize
  hashMaxSize_lt : hashes.hashMaxSize < 256

structure HmacOperation.Open (hmac : HmacOperation τ) (hashes : PsaHashes τ)
    (Inactive : τ → Prop) (alg : PsaAlgorithm) (H : ByteString → ByteString)
    (key message : ByteString) : Prop where
  alg_eq : hmac.alg = alg
  opad : hmac.opad.take (hashes.blockLength alg) =
    Hmac.pad (hashes.blockLength alg) 0x5c (Hmac.shortKey H (hashes.blockLength alg) key)
  absorbed : (hashes.multipart alg).Absorbed Inactive
    (Hmac.pad (hashes.blockLength alg) 0x36 (Hmac.shortKey H (hashes.blockLength alg) key) ++
      message) hmac.hashCtx

section Specs

variable {hashes} {Inactive : τ → Prop} {alg : PsaAlgorithm} {H : ByteString → ByteString}
  {hmac : HmacOperation τ} {key message : ByteString}

theorem PsaHashes.Implements.digest_le (h : hashes.Implements Inactive alg H)
    (message : ByteString) : (H message).length ≤ hashes.blockLength alg := by
  rw [h.length_eq]
  exact h.length_le

theorem hmacKey_eq (h : hashes.Implements Inactive alg H) (key : ByteString) :
    hmacKey hashes alg key = .ok (Hmac.shortKey H (hashes.blockLength alg) key) := by
  unfold hmacKey Hmac.shortKey
  by_cases hlong : hashes.blockLength alg < key.length
  · rw [if_pos hlong, if_pos hlong, h.compute_eq]
  · rw [if_neg hlong, if_neg hlong]

theorem onHash_eq {call : Fallible τ PsaStatus α} {s s' : τ} (h : call s = (r, s')) :
    onHash call { hmac with hashCtx := s } = (r, { hmac with hashCtx := s' }) := by
  unfold onHash
  rw [h]

theorem hashSetup_spec (h : hashes.Implements Inactive alg H) {s : τ} (hs : Inactive s) :
    ∃ s', onHash (hashes.setup alg) { hmac with hashCtx := s } =
        (.ok (), { hmac with hashCtx := s' }) ∧
      (hashes.multipart alg).Absorbed Inactive [] s' := by
  obtain ⟨s', hsetup, habsorbed⟩ := h.computes.starts hs
  exact ⟨s', onHash_eq hsetup, habsorbed⟩

theorem hashUpdate_spec (h : hashes.Implements Inactive alg H) {s : τ}
    (ha : (hashes.multipart alg).Absorbed Inactive message s) (data : ByteString) :
    ∃ s', onHash (hashes.update data) { hmac with hashCtx := s } =
        (.ok (), { hmac with hashCtx := s' }) ∧
      (hashes.multipart alg).Absorbed Inactive (message ++ data) s' := by
  obtain ⟨s', hupdate, habsorbed⟩ := h.computes.update ha data
  exact ⟨s', onHash_eq hupdate, habsorbed⟩

theorem hashFinish_spec (h : hashes.Implements Inactive alg H) {s : τ}
    (ha : (hashes.multipart alg).Absorbed Inactive message s) :
    ∃ s', onHash hashes.finish { hmac with hashCtx := s } =
        (.ok (H message), { hmac with hashCtx := s' }) ∧ Inactive s' := by
  obtain ⟨s', hfinish, hinactive⟩ := h.computes.finish ha
  exact ⟨s', onHash_eq hfinish, hinactive⟩

theorem psaHmacSetupInternal_spec (h : hashes.Implements Inactive alg H)
    (hinactive : Inactive hmac.hashCtx) (hopad : hmac.opad.length = hashes.hmacMaxHashBlockSize)
    {ipad : ByteString} (hipad : ipad.length = hashes.hmacMaxHashBlockSize) (key : ByteString) :
    ∃ hmac', psaHmacSetupInternal hashes ipad key alg hmac = (.ok (), hmac') ∧
      hmac'.Open hashes Inactive alg H key [] := by
  have hshort := Hmac.length_shortKey h.digest_le key
  have hsizes : ¬ (hashes.hmacMaxHashBlockSize < hashes.blockLength alg ∨
      hashes.blockLength alg < hashes.length alg) := by
    rintro (hlarge | hsmall)
    · exact absurd h.blockLength_le (Nat.not_le.mpr hlarge)
    · exact absurd h.length_le (Nat.not_le.mpr hsmall)
  obtain ⟨z, hz⟩ := ipadOf_eq hshort (Nat.le_trans h.blockLength_le (Nat.le_of_eq hipad.symm))
  obtain ⟨z', hz'⟩ := @opadOf_eq hmac.opad z _ _ hshort
    (Nat.le_trans h.blockLength_le (Nat.le_of_eq hopad.symm))
  have htake : ∀ c z, (Hmac.pad (hashes.blockLength alg) c
      (Hmac.shortKey H (hashes.blockLength alg) key) ++ z).take (hashes.blockLength alg) =
      Hmac.pad (hashes.blockLength alg) c (Hmac.shortKey H (hashes.blockLength alg) key) :=
    fun c z => List.take_left' (Hmac.length_pad hshort)
  let padded : HmacOperation τ :=
    { alg := alg, hashCtx := hmac.hashCtx
      opad := opadOf hmac.opad (Hmac.pad (hashes.blockLength alg) 0x36
        (Hmac.shortKey H (hashes.blockLength alg) key) ++ z)
        (Hmac.shortKey H (hashes.blockLength alg) key).length (hashes.blockLength alg) }
  obtain ⟨s₁, hsetup, habsorbed⟩ := @hashSetup_spec _ _ _ _ _ padded h _ hinactive
  obtain ⟨s₂, hupdate, habsorbed⟩ := @hashUpdate_spec _ _ _ _ _ padded _ h _ habsorbed
    (Hmac.pad (hashes.blockLength alg) 0x36 (Hmac.shortKey H (hashes.blockLength alg) key))
  refine ⟨{ padded with hashCtx := s₂ }, ?_, ?_⟩
  · unfold psaHmacSetupInternal
    rw [Fallible.bind_ok (Fallible.update_apply _ _), if_neg hsizes, hmacKey_eq h,
      Fallible.ofExcept_bind_ok rfl, hz, Fallible.bind_ok (Fallible.update_apply _ _), htake]
    exact (Fallible.bind_ok hsetup).trans hupdate
  · refine { alg_eq := rfl, opad := ?_, absorbed := by rwa [List.append_nil] }
    show (opadOf _ _ _ _).take _ = _
    rw [hz', htake]

theorem psaHmacUpdateInternal_spec (h : hashes.Implements Inactive alg H)
    (hopen : hmac.Open hashes Inactive alg H key message) (data : ByteString) :
    ∃ hmac', psaHmacUpdateInternal hashes data hmac = (.ok (), hmac') ∧
      hmac'.Open hashes Inactive alg H key (message ++ data) := by
  obtain ⟨s, hupdate, habsorbed⟩ := @hashUpdate_spec _ _ _ _ _ hmac _ h _ hopen.absorbed data
  rw [List.append_assoc] at habsorbed
  exact ⟨{ hmac with hashCtx := s }, hupdate,
    { alg_eq := hopen.alg_eq, opad := hopen.opad, absorbed := habsorbed }⟩

theorem psaHmacFinishInternal_spec (h : hashes.Implements Inactive alg H)
    (hopen : hmac.Open hashes Inactive alg H key message) (macSize : Nat) :
    ∃ hmac', psaHmacFinishInternal hashes macSize hmac =
      (.ok ((Hmac.hmac H (hashes.blockLength alg) key message).take macSize), hmac') := by
  have halg := hopen.alg_eq
  subst halg
  obtain ⟨s₁, hinner, hinactive⟩ := @hashFinish_spec _ _ _ _ _ hmac _ h _ hopen.absorbed
  obtain ⟨s₂, hsetup, habsorbed⟩ := @hashSetup_spec _ _ _ _ _ hmac h _ hinactive
  obtain ⟨s₃, hpad, habsorbed⟩ := @hashUpdate_spec _ _ _ _ _ hmac _ h _ habsorbed
    (Hmac.pad (hashes.blockLength hmac.alg) 0x5c
      (Hmac.shortKey H (hashes.blockLength hmac.alg) key))
  obtain ⟨s₄, htmp, habsorbed⟩ := @hashUpdate_spec _ _ _ _ _ hmac _ h _ habsorbed
    (H (Hmac.pad (hashes.blockLength hmac.alg) 0x36
      (Hmac.shortKey H (hashes.blockLength hmac.alg) key) ++ message))
  obtain ⟨s₅, houter, -⟩ := @hashFinish_spec _ _ _ _ _ hmac _ h _ habsorbed
  refine ⟨{ hmac with hashCtx := s₅ }, ?_⟩
  unfold psaHmacFinishInternal
  rw [Fallible.bind_ok (Fallible.read_apply _), Fallible.bind_ok hinner,
    hopen.opad, Fallible.bind_ok hsetup, Fallible.bind_ok hpad, Fallible.bind_ok htmp,
    Fallible.bind_ok houter, Hmac.hmac_eq_pads h.digest_le]
  rfl

/-! ## The driver and the core -/

/-- `psa_hmac_update_internal` on one chunk after the other. -/
def psaHmacUpdates (hashes : PsaHashes τ) :
    List ByteString → Fallible (HmacOperation τ) PsaStatus Unit
  | [] => return ()
  | chunk :: chunks => do
    psaHmacUpdateInternal hashes chunk
    psaHmacUpdates hashes chunks

def psaHmac (hashes : PsaHashes τ) (ipad key : ByteString) (hashAlg : PsaAlgorithm)
    (chunks : List ByteString) (macSize : Nat) :
    Fallible (HmacOperation τ) PsaStatus ByteString := do
  psaHmacSetupInternal hashes ipad key hashAlg
  psaHmacUpdates hashes chunks
  psaHmacFinishInternal hashes macSize

theorem psaHmacUpdates_spec (h : hashes.Implements Inactive alg H) (chunks : List ByteString)
    (hopen : hmac.Open hashes Inactive alg H key message) :
    ∃ hmac', psaHmacUpdates hashes chunks hmac = (.ok (), hmac') ∧
      hmac'.Open hashes Inactive alg H key (message ++ chunks.flatten) := by
  induction chunks generalizing hmac message with
  | nil =>
    refine ⟨hmac, rfl, ?_⟩
    rwa [List.flatten_nil, List.append_nil]
  | cons chunk chunks ih =>
    obtain ⟨hmac₁, hupdate, hopen₁⟩ := psaHmacUpdateInternal_spec h hopen chunk
    obtain ⟨hmac₂, hrest, hopen₂⟩ := ih hopen₁
    rw [List.append_assoc] at hopen₂
    exact ⟨hmac₂, (Fallible.bind_ok hupdate).trans hrest, hopen₂⟩

theorem psaHmac_eq (h : hashes.Implements Inactive alg H) (hinactive : Inactive hmac.hashCtx)
    (hopad : hmac.opad.length = hashes.hmacMaxHashBlockSize) {ipad : ByteString}
    (hipad : ipad.length = hashes.hmacMaxHashBlockSize) (key : ByteString)
    (chunks : List ByteString) (macSize : Nat) :
    (psaHmac hashes ipad key alg chunks macSize hmac).1 =
      .ok ((Hmac.hmac H (hashes.blockLength alg) key chunks.flatten).take macSize) := by
  obtain ⟨hmac₁, hsetup, hopen⟩ := psaHmacSetupInternal_spec h hinactive hopad hipad key
  obtain ⟨hmac₂, hupdates, hopen⟩ := psaHmacUpdates_spec h chunks hopen
  obtain ⟨hmac₃, hfinish⟩ := psaHmacFinishInternal_spec h hopen macSize
  unfold psaHmac
  rw [Fallible.bind_ok hsetup, Fallible.bind_ok hupdates, hfinish]
  rfl

end Specs

structure MacOperation.Open (operation : MacOperation τ) (hashes : PsaHashes τ)
    (Inactive : τ → Prop) (alg : PsaAlgorithm) (H : ByteString → ByteString)
    (key message : ByteString) : Prop where
  alg_eq : operation.alg = alg
  isHmac : psaAlgIsHmac alg
  hmac : operation.hmac.Open hashes Inactive (psaAlgHmacGetHash alg) H key message

structure PsaMacOperation.Verifying (operation : PsaMacOperation τ) (hashes : PsaHashes τ)
    (Inactive : τ → Prop) (alg : PsaAlgorithm) (H : ByteString → ByteString)
    (key message : ByteString) : Prop where
  id_ne : operation.id ≠ 0
  isSign : operation.isSign = false
  macSize : operation.macSize = macLength hashes alg
  ctx : operation.ctx.Open hashes Inactive alg H key message

section Algorithms

variable {alg : PsaAlgorithm}

theorem ne_zero_of_isHmac (h : psaAlgIsHmac alg) : alg ≠ 0 := by
  rintro rfl
  exact absurd h (by decide)

theorem isMac_of_isHmac (h : psaAlgIsHmac alg) : psaAlgIsMac alg = true := by
  have hbase : alg &&& (psaAlgCategoryMask ||| psaAlgMacSubcategoryMask) = psaAlgHmacBase :=
    of_decide_eq_true h
  have hmask : psaAlgCategoryMask =
      (psaAlgCategoryMask ||| psaAlgMacSubcategoryMask) &&& psaAlgCategoryMask := by decide
  apply decide_eq_true
  rw [hmask, ← BitVec.and_assoc, hbase]
  decide

theorem macLength_full (hashes : PsaHashes τ) (alg : PsaAlgorithm) :
    macLength hashes (psaAlgFullLengthMac alg) = hashes.length (psaAlgHmacGetHash alg) := by
  have hfield : psaAlgFullLengthMac alg &&& lengthMask = 0 := by
    show alg &&& ~~~(lengthMask ||| atLeastThisLengthFlag) &&& lengthMask = 0
    have hmask : ~~~(lengthMask ||| atLeastThisLengthFlag) &&& lengthMask = 0 := by decide
    rw [BitVec.and_assoc, hmask]
    exact BitVec.and_zero
  have hhash : psaAlgHmacGetHash (psaAlgFullLengthMac alg) = psaAlgHmacGetHash alg := by
    show psaAlgCategoryHash |||
      (alg &&& ~~~(lengthMask ||| atLeastThisLengthFlag) &&& psaAlgHashMask) = _
    have hmask : ~~~(lengthMask ||| atLeastThisLengthFlag) &&& psaAlgHashMask =
        psaAlgHashMask := by decide
    rw [BitVec.and_assoc, hmask]
    rfl
  unfold macLength
  rw [if_neg (not_not_intro hfield), hhash]

end Algorithms

section Core

variable {hashes} {Inactive : τ → Prop} {alg : PsaAlgorithm} {H : ByteString → ByteString}
  {key message : ByteString}

theorem orAbort_ok {ω : Type} {abort : ω → ω} {call : Fallible ω PsaStatus α} {s s' : ω} {a : α}
    (h : call s = (.ok a, s')) : orAbort abort call s = (.ok a, s') := by
  unfold orAbort
  rw [h]

theorem onHmac_eq {call : Fallible (HmacOperation τ) PsaStatus α} {operation : MacOperation τ}
    {hmac : HmacOperation τ} (h : call operation.hmac = (r, hmac)) :
    onHmac call operation = (r, { operation with hmac := hmac }) := by
  unfold onHmac
  rw [h]

theorem onDriver_eq {call : Fallible (MacOperation τ) PsaStatus α} {ctx : MacOperation τ}
    (h : call operation.ctx = (r, ctx)) :
    onDriver call operation = (r, { operation with ctx := ctx }) := by
  unfold onDriver
  rw [h]

theorem mbedtlsPsaMacSetup_spec
    (h : hashes.Implements Inactive (psaAlgHmacGetHash alg) H) (halg : psaAlgIsHmac alg)
    {operation : MacOperation τ} (hzero : operation.alg = 0)
    (hinactive : Inactive operation.hmac.hashCtx)
    (hopad : operation.hmac.opad.length = hashes.hmacMaxHashBlockSize) {ipad : ByteString}
    (hipad : ipad.length = hashes.hmacMaxHashBlockSize) (key : ByteString) :
    ∃ operation', mbedtlsPsaMacSetup hashes ipad key alg operation = (.ok (), operation') ∧
      operation'.Open hashes Inactive alg H key [] := by
  obtain ⟨hmac, hsetup, hopen⟩ := @psaHmacSetupInternal_spec _ _ _ _ _
    { operation.hmac with alg := 0 } h hinactive hopad _ hipad key
  refine ⟨{ alg := alg, hmac := hmac }, ?_, { alg_eq := rfl, isHmac := halg, hmac := hopen }⟩
  unfold mbedtlsPsaMacSetup
  rw [Fallible.bind_ok (Fallible.read_apply operation), if_neg (not_not_intro hzero), if_pos halg,
    Fallible.bind_ok (Fallible.update_apply _ _)]
  apply orAbort_ok
  exact onHmac_eq hsetup

theorem mbedtlsPsaMacUpdate_spec
    (h : hashes.Implements Inactive (psaAlgHmacGetHash alg) H) {operation : MacOperation τ}
    (hopen : operation.Open hashes Inactive alg H key message) (input : ByteString) :
    ∃ operation', mbedtlsPsaMacUpdate hashes input operation = (.ok (), operation') ∧
      operation'.Open hashes Inactive alg H key (message ++ input) := by
  obtain ⟨hmac, hupdate, hopen'⟩ := psaHmacUpdateInternal_spec h hopen.hmac input
  refine ⟨{ operation with hmac := hmac }, ?_,
    { alg_eq := hopen.alg_eq, isHmac := hopen.isHmac, hmac := hopen' }⟩
  unfold mbedtlsPsaMacUpdate
  rw [Fallible.bind_ok (Fallible.read_apply operation), hopen.alg_eq,
    if_neg (ne_zero_of_isHmac hopen.isHmac), if_pos hopen.isHmac, onHmac_eq hupdate]
  rw [hopen.alg_eq]

theorem mbedtlsPsaMacVerifyFinish_eq
    (h : hashes.Implements Inactive (psaAlgHmacGetHash alg) H) {operation : MacOperation τ}
    (hopen : operation.Open hashes Inactive alg H key message) {mac : ByteString}
    (hmac : mac.length ≤ hashes.hashMaxSize) :
    (mbedtlsPsaMacVerifyFinish hashes mac operation).1 =
      if mac = (Hmac.hmac H (hashes.blockLength (psaAlgHmacGetHash alg)) key message).take
        mac.length then .ok () else .error .errorInvalidSignature := by
  obtain ⟨hmac', hfinish⟩ := psaHmacFinishInternal_spec h hopen.hmac mac.length
  have hcall : psaMacFinishInternal hashes mac.length operation =
      (.ok ((Hmac.hmac H (hashes.blockLength (psaAlgHmacGetHash alg)) key message).take mac.length),
        { operation with hmac := hmac' }) := by
    have hhmac : psaAlgIsHmac operation.alg = true := by rw [hopen.alg_eq, hopen.isHmac]
    unfold psaMacFinishInternal
    rw [Fallible.bind_ok (Fallible.read_apply operation), if_pos hhmac]
    exact onHmac_eq hfinish
  unfold mbedtlsPsaMacVerifyFinish
  rw [Fallible.bind_ok (Fallible.read_apply operation), hopen.alg_eq,
    if_neg (ne_zero_of_isHmac hopen.isHmac), if_neg (Nat.not_lt.mpr hmac),
    Fallible.bind_ok hcall]
  by_cases heq : mac = (Hmac.hmac H (hashes.blockLength (psaAlgHmacGetHash alg)) key message).take
      mac.length
  · rw [if_neg (not_not_intro heq), if_pos heq]
    rfl
  · rw [if_pos heq, if_neg heq]
    rfl

theorem finalize_spec (h : hashes.Implements Inactive (psaAlgHmacGetHash alg) H)
    (halg : psaAlgIsHmac alg) (hmin : 4 ≤ macLength hashes alg)
    (hmax : macLength hashes alg ≤ hashes.length (psaAlgHmacGetHash alg))
    (operation : PsaMacOperation τ) :
    psaMacFinalizeAlgAndKeyValidation hashes alg operation =
      (.ok (), { operation with macSize := macLength hashes alg }) := by
  have hbyte : macLength hashes alg % 256 = macLength hashes alg :=
    Nat.mod_eq_of_lt (Nat.lt_of_le_of_lt (hmax.trans h.hashLength_le) h.hashMaxSize_lt)
  unfold psaMacFinalizeAlgAndKeyValidation
  rw [isMac_of_isHmac halg, halg, hbyte, macLength_full]
  rw [if_neg (by simp), Fallible.bind_ok (Fallible.update_apply _ _),
    if_neg (Nat.not_lt.mpr hmin), if_neg (Nat.not_lt.mpr hmax),
    if_neg (Nat.not_lt.mpr (hmax.trans h.hashLength_le))]
  rfl

theorem psaMacVerifySetup_spec (h : hashes.Implements Inactive (psaAlgHmacGetHash alg) H)
    (halg : psaAlgIsHmac alg) (hmin : 4 ≤ macLength hashes alg)
    (hmax : macLength hashes alg ≤ hashes.length (psaAlgHmacGetHash alg)) (hid : operation.id = 0)
    {zeroed : MacOperation τ} (hzero : zeroed.alg = 0) (hinactive : Inactive zeroed.hmac.hashCtx)
    (hopad : zeroed.hmac.opad.length = hashes.hmacMaxHashBlockSize) {ipad : ByteString}
    (hipad : ipad.length = hashes.hmacMaxHashBlockSize) (key : ByteString) :
    ∃ operation', psaMacSetup hashes zeroed ipad key alg false operation = (.ok (), operation') ∧
      operation'.Verifying hashes Inactive alg H key [] := by
  obtain ⟨ctx, hsetup, hopen⟩ := mbedtlsPsaMacSetup_spec h halg hzero hinactive hopad hipad key
  refine ⟨{ id := mbedTlsDriverId, macSize := macLength hashes alg, isSign := false, ctx := ctx },
    ?_, { id_ne := Nat.one_ne_zero, isSign := rfl, macSize := rfl, ctx := hopen }⟩
  apply orAbort_ok
  rw [Fallible.bind_ok (Fallible.read_apply operation), if_neg (not_not_intro hid),
    Fallible.bind_ok (Fallible.update_apply _ _),
    Fallible.bind_ok (finalize_spec h halg hmin hmax _),
    Fallible.bind_ok (Fallible.update_apply _ _), Fallible.bind_ok (onDriver_eq hsetup)]
  rfl

theorem psaMacUpdate_spec (h : hashes.Implements Inactive (psaAlgHmacGetHash alg) H)
    (hopen : operation.Verifying hashes Inactive alg H key message) (input : ByteString) :
    ∃ operation', psaMacUpdate hashes true input operation = (.ok (), operation') ∧
      operation'.Verifying hashes Inactive alg H key (message ++ input) := by
  by_cases hempty : input = []
  · subst hempty
    rw [List.append_nil]
    refine ⟨operation, ?_, hopen⟩
    unfold psaMacUpdate
    rw [Fallible.bind_ok (Fallible.read_apply operation), if_neg hopen.id_ne, if_pos rfl]
    rfl
  · obtain ⟨ctx, hupdate, hopen'⟩ := mbedtlsPsaMacUpdate_spec h hopen.ctx input
    refine ⟨{ operation with ctx := ctx }, ?_,
      { id_ne := hopen.id_ne, isSign := hopen.isSign, macSize := hopen.macSize, ctx := hopen' }⟩
    unfold psaMacUpdate
    rw [Fallible.bind_ok (Fallible.read_apply operation), if_neg hopen.id_ne, if_neg hempty,
      if_neg (by decide)]
    exact orAbort_ok (onDriver_eq hupdate)

theorem psaMacVerifyFinish_spec (h : hashes.Implements Inactive (psaAlgHmacGetHash alg) H)
    (hmax : macLength hashes alg ≤ hashes.length (psaAlgHmacGetHash alg))
    (hopen : operation.Verifying hashes Inactive alg H key message) (mac : ByteString) :
    (psaMacVerifyFinish hashes true mac operation).1 = .ok () ↔
      mac = (Hmac.hmac H (hashes.blockLength (psaAlgHmacGetHash alg)) key message).take
        (macLength hashes alg) := by
  unfold psaMacVerifyFinish
  rw [if_neg hopen.id_ne, if_neg (by rw [hopen.isSign]; exact Bool.false_ne_true), hopen.macSize]
  by_cases hlength : macLength hashes alg = mac.length
  · have hfits : mac.length ≤ hashes.hashMaxSize :=
      Nat.le_trans (Nat.le_of_eq hlength.symm) (hmax.trans h.hashLength_le)
    rw [if_neg (not_not_intro hlength), if_neg (by decide), hlength]
    show (mbedtlsPsaMacVerifyFinish hashes mac operation.ctx).1 = _ ↔ _
    rw [mbedtlsPsaMacVerifyFinish_eq h hopen.ctx hfits]
    split
    · next heq => exact ⟨fun _ => heq, fun _ => rfl⟩
    next hne =>
    constructor
    · intro herror
      cases herror
    · intro heq
      exact absurd heq hne
  · rw [if_pos hlength]
    constructor
    · intro herror
      cases herror
    intro hmac
    have hdigest : (Hmac.hmac H (hashes.blockLength (psaAlgHmacGetHash alg)) key
        message).length = hashes.length (psaAlgHmacGetHash alg) := h.length_eq _
    have htake := congrArg List.length hmac
    rw [List.length_take_of_le (hmax.trans (Nat.le_of_eq hdigest.symm))] at htake
    exact absurd htake.symm hlength

def psaMacUpdates (hashes : PsaHashes τ) :
    List ByteString → Fallible (PsaMacOperation τ) PsaStatus Unit
  | [] => return ()
  | chunk :: chunks => do
    psaMacUpdate hashes true chunk
    psaMacUpdates hashes chunks

def psaMacVerify (hashes : PsaHashes τ) (zeroed : MacOperation τ) (ipad key : ByteString)
    (alg : PsaAlgorithm) (chunks : List ByteString) (mac : ByteString) :
    Fallible (PsaMacOperation τ) PsaStatus Unit := do
  psaMacSetup hashes zeroed ipad key alg false
  psaMacUpdates hashes chunks
  psaMacVerifyFinish hashes true mac

theorem psaMacUpdates_spec (h : hashes.Implements Inactive (psaAlgHmacGetHash alg) H)
    (chunks : List ByteString) (hopen : operation.Verifying hashes Inactive alg H key message) :
    ∃ operation', psaMacUpdates hashes chunks operation = (.ok (), operation') ∧
      operation'.Verifying hashes Inactive alg H key (message ++ chunks.flatten) := by
  induction chunks generalizing operation message with
  | nil =>
    refine ⟨operation, rfl, ?_⟩
    rwa [List.flatten_nil, List.append_nil]
  | cons chunk chunks ih =>
    obtain ⟨operation₁, hupdate, hopen₁⟩ := psaMacUpdate_spec h hopen chunk
    obtain ⟨operation₂, hrest, hopen₂⟩ := ih hopen₁
    rw [List.append_assoc] at hopen₂
    exact ⟨operation₂, (Fallible.bind_ok hupdate).trans hrest, hopen₂⟩

theorem psaMacVerify_eq (h : hashes.Implements Inactive (psaAlgHmacGetHash alg) H)
    (halg : psaAlgIsHmac alg) (hmin : 4 ≤ macLength hashes alg)
    (hmax : macLength hashes alg ≤ hashes.length (psaAlgHmacGetHash alg)) (hid : operation.id = 0)
    {zeroed : MacOperation τ} (hzero : zeroed.alg = 0) (hinactive : Inactive zeroed.hmac.hashCtx)
    (hopad : zeroed.hmac.opad.length = hashes.hmacMaxHashBlockSize) {ipad : ByteString}
    (hipad : ipad.length = hashes.hmacMaxHashBlockSize) (key : ByteString)
    (chunks : List ByteString) (mac : ByteString) :
    (psaMacVerify hashes zeroed ipad key alg chunks mac operation).1 = .ok () ↔
      mac = (Hmac.hmac H (hashes.blockLength (psaAlgHmacGetHash alg)) key chunks.flatten).take
        (macLength hashes alg) := by
  obtain ⟨operation₁, hsetup, hopen⟩ :=
    psaMacVerifySetup_spec h halg hmin hmax hid hzero hinactive hopad hipad key
  obtain ⟨operation₂, hupdates, hopen⟩ := psaMacUpdates_spec h chunks hopen
  unfold psaMacVerify
  rw [Fallible.bind_ok hsetup, Fallible.bind_ok hupdates]
  exact psaMacVerifyFinish_spec h hmax hopen mac

end Core

/-! ## The implementations agree -/

open MdHmac (MdInfo MdContext HmacCall performAll hmacSession mdHmac mdHmacFinish)

/-- Both implementations compute HMAC. In the message digest module any calls may come before:
a message that is open then, after a start or a reset, gets its MAC. -/
theorem hmac_implementations_agree {σ τ : Type} {info : MdInfo σ} {hashes : PsaHashes τ}
    {Inactive : τ → Prop} {alg : PsaAlgorithm} {H : ByteString → ByteString}
    (hmd : info.Implements H) (hpsa : hashes.Implements Inactive (psaAlgHmacGetHash alg) H)
    (halg : psaAlgIsHmac alg)
    (hblock : hashes.blockLength (psaAlgHmacGetHash alg) = info.blockSize) :
    (∀ (ctx : MdContext σ) (calls : List HmacCall) (key message : ByteString), ctx.Ready info →
      hmacSession calls = some { key := key, message := some message } →
      (mdHmacFinish (performAll calls ctx)).1 = .ok (Hmac.hmac H info.blockSize key message)) ∧
    (∀ key input : ByteString, mdHmac (some info) true true key input =
      .ok (Hmac.hmac H info.blockSize key input)) ∧
    (∀ (hmac : HmacOperation τ) (ipad key : ByteString) (chunks : List ByteString)
      (macSize : Nat), Inactive hmac.hashCtx →
      hmac.opad.length = hashes.hmacMaxHashBlockSize →
      ipad.length = hashes.hmacMaxHashBlockSize →
      macSize ≤ hashes.length (psaAlgHmacGetHash alg) →
      (psaHmac hashes ipad key (psaAlgHmacGetHash alg) chunks macSize hmac).1 =
        .ok ((Hmac.hmac H info.blockSize key chunks.flatten).take macSize)) ∧
    (∀ (operation : PsaMacOperation τ) (zeroed : MacOperation τ) (ipad key : ByteString)
      (chunks : List ByteString) (mac : ByteString), operation.id = 0 → zeroed.alg = 0 →
      Inactive zeroed.hmac.hashCtx → zeroed.hmac.opad.length = hashes.hmacMaxHashBlockSize →
      ipad.length = hashes.hmacMaxHashBlockSize → 4 ≤ macLength hashes alg →
      macLength hashes alg ≤ hashes.length (psaAlgHmacGetHash alg) →
      ((psaMacVerify hashes zeroed ipad key alg chunks mac operation).1 = .ok () ↔
        mac = (Hmac.hmac H info.blockSize key chunks.flatten).take (macLength hashes alg))) := by
  refine ⟨?_, ?_, ?_, ?_⟩
  · intro ctx calls key message hready hsession
    exact MdHmac.finish_of_session hmd hready hsession
  · intro key input
    exact MdHmac.mdHmac_eq hmd key input
  · intro hmac ipad key chunks macSize hinactive hopad hipad _
    rw [← hblock]
    exact psaHmac_eq hpsa hinactive hopad hipad key chunks macSize
  · intro operation zeroed ipad key chunks mac hid hzero hinactive hopad hipad hmin hmax
    rw [← hblock]
    exact psaMacVerify_eq hpsa halg hmin hmax hid hzero hinactive hopad hipad key chunks mac

def sumHash (message : ByteString) : ByteString :=
  List.replicate 4 (message.foldl (fun sum b => 3 * sum + b) 1)

def sumMd : MdInfo ByteString where
  toMultipart := Multipart.buffered sumHash
  size := 4
  blockSize := 4
  init := []

def sumHashes : PsaHashes ByteString where
  setup _ := (Multipart.buffered sumHash).starts
  update := (Multipart.buffered sumHash).update
  finish := (Multipart.buffered sumHash).finish
  abort _ := []
  compute _ message := .ok (sumHash message)
  length _ := 4
  blockLength _ := 4
  hashMaxSize := 64
  hmacMaxHashBlockSize := 4

theorem sumMd_implements : sumMd.Implements sumHash where
  computes := Multipart.buffered_computes sumHash
  length_eq _ := List.length_replicate
  size_le := Nat.le_refl 4

theorem sumHashes_implements (alg : PsaAlgorithm) :
    sumHashes.Implements (fun _ => True) alg sumHash where
  computes := Multipart.buffered_computes sumHash
  compute_eq _ := rfl
  length_eq _ := List.length_replicate
  length_le := Nat.le_refl 4
  blockLength_le := Nat.le_refl 4
  hashLength_le := show 4 ≤ 64 by decide
  hashMaxSize_lt := by decide

/-- A message given up and one after it, under a key that is longer than a block. -/
theorem hmac_implementations_agree_reset :
    (mdHmacFinish (performAll [.starts [1, 2, 3, 4, 5], .update [7], .reset, .update [8],
        .update [9]]
        { mdInfo := some sumMd, mdCtx := [], hmacCtx := some (List.replicate 8 0) })).1 =
      .ok (Hmac.hmac sumHash 4 [1, 2, 3, 4, 5] [8, 9]) ∧
    ((psaMacVerify sumHashes
        { alg := 0, hmac := { alg := 0, hashCtx := [], opad := [0, 0, 0, 0] } } [0, 0, 0, 0]
        [1, 2, 3, 4, 5] (psaAlgHmac psaAlgSha256) [[8], [9]] [1, 2, 3, 4]
        ⟨0, 0, false, { alg := 0, hmac := { alg := 0, hashCtx := [], opad := [0, 0, 0, 0] } }⟩).1 =
          .ok () ↔
      [1, 2, 3, 4] = (Hmac.hmac sumHash 4 [1, 2, 3, 4, 5] [8, 9]).take 4) := by
  obtain ⟨hmd, -, -, hpsa⟩ := @hmac_implementations_agree ByteString ByteString sumMd sumHashes
    (fun _ => True) (psaAlgHmac psaAlgSha256) sumHash sumMd_implements
    (sumHashes_implements _) (by decide) rfl
  constructor
  · exact hmd _ _ _ _ { mdInfo := rfl, hmacCtx := ⟨_, rfl, rfl⟩ } rfl
  · exact hpsa _ _ _ _ [[8], [9]] _ rfl rfl trivial rfl rfl (by decide) (by decide)

end TfPsaCrypto.PsaHmac
