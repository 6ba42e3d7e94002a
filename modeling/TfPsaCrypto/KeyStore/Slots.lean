import TfPsaCrypto.Core.KeyPolicy
import TfPsaCrypto.Library.Bytes

/-!
# The slots of the key store

`psa_key_slot_t` and the table of slots. The static key store has one slice of slots; the dynamic
one has slices of volatile keys, each with a free list, and one slice for other keys.
-/

namespace TfPsaCrypto.KeyStore

open Bytes

/-! ## Identifiers -/

def psaKeyIdUserMin : Nat := 0x00000001
def psaKeyIdUserMax : Nat := 0x3fffffff

def psaKeyIdVolatileMin : Nat := 0x40000000

def mbedtlsPsaKeyIdBuiltinMin : Nat := 0x7fff0000
def mbedtlsPsaKeyIdBuiltinMax : Nat := 0x7fffefff

def psaKeyIdIsUser (keyId : PsaKeyId) : Bool :=
  psaKeyIdUserMin ≤ keyId.toNat ∧ keyId.toNat ≤ psaKeyIdUserMax

def psaKeyIdIsBuiltin (keyId : PsaKeyId) : Bool :=
  mbedtlsPsaKeyIdBuiltinMin ≤ keyId.toNat ∧ keyId.toNat ≤ mbedtlsPsaKeyIdBuiltinMax

/-! ## The configuration -/

def keySlotVolatileSliceCount : Nat := 22

structure Config where
  /-- `MBEDTLS_PSA_KEY_STORE_DYNAMIC`. -/
  dynamic : Bool
  /-- `MBEDTLS_PSA_KEY_SLOT_COUNT`. -/
  slotCount : Nat
  /-- The length of a volatile slice. -/
  volatileSliceLength : Nat → Nat
  /-- `SIZE_MAX + 1`. -/
  sizeMod : Nat
  one_le_length : ∀ i < keySlotVolatileSliceCount, 1 ≤ volatileSliceLength i
  length_le : ∀ i < keySlotVolatileSliceCount, volatileSliceLength i ≤ 2 ^ 25
  slotCount_le : slotCount ≤ mbedtlsPsaKeyIdBuiltinMin - psaKeyIdVolatileMin
  sizeMod_eq : sizeMod = 2 ^ 32 ∨ sizeMod = 2 ^ 64

structure SlotPtr where
  slice : Nat
  index : Nat
  deriving DecidableEq, Repr

namespace Config

variable (cfg : Config)

def cacheSlice : Nat := if cfg.dynamic then keySlotVolatileSliceCount else 0

def keySliceCount : Nat := if cfg.dynamic then keySlotVolatileSliceCount + 1 else 1

def keySliceLength (sliceIdx : Nat) : Nat :=
  if sliceIdx = cfg.cacheSlice then cfg.slotCount else cfg.volatileSliceLength sliceIdx

def freeSlotIndexNone : Nat := cfg.sizeMod - 1

def psaKeyIdVolatileMax : Nat :=
  if cfg.dynamic then mbedtlsPsaKeyIdBuiltinMin - 1 else psaKeyIdVolatileMin + cfg.slotCount - 1

def psaKeyIdIsVolatile (keyId : PsaKeyId) : Bool :=
  psaKeyIdVolatileMin ≤ keyId.toNat ∧ keyId.toNat ≤ cfg.psaKeyIdVolatileMax

def Valid (p : SlotPtr) : Prop := p.slice < cfg.keySliceCount ∧ p.index < cfg.keySliceLength p.slice

instance (p : SlotPtr) : Decidable (cfg.Valid p) := inferInstanceAs (Decidable (_ ∧ _))

end Config

def volatileKeyIdOfIndex (sliceIdx slotIdx : Nat) : PsaKeyId :=
  BitVec.ofNat 32 (0x40000000 ||| (sliceIdx <<< 25) ||| slotIdx)

def sliceIndexOfVolatileKeyId (keyId : PsaKeyId) : Nat := (keyId.toNat >>> 25) &&& (2 ^ 5 - 1)

def slotIndexOfVolatileKeyId (keyId : PsaKeyId) : Nat := keyId.toNat &&& (2 ^ 25 - 1)

/-! ## A slot -/

inductive SlotState where
  | empty
  | filling
  | full
  | pendingDeletion
  deriving DecidableEq, Repr

/-- `psa_key_slot_t`. The union `var` is its word, of the size of a `size_t`; the number of the
next free slot is in the low half of a 64-bit word. -/
structure PsaKeySlot where
  attr : PsaKeyAttributes
  state : SlotState
  sliceIndex : Nat
  var : Nat
  key : ByteString
  deriving DecidableEq

namespace PsaKeySlot

def zero : PsaKeySlot :=
  { attr := psaKeyAttributesInit, state := .empty, sliceIndex := 0, var := 0, key := [] }

def registeredReaders (slot : PsaKeySlot) : Nat := slot.var

/-- `var.free.next_free_relative_to_next`, an `int32_t`. -/
def nextFreeRelativeToNext (slot : PsaKeySlot) : Int := Int.bmod slot.var (2 ^ 32)

def setNextFreeRelativeToNext (slot : PsaKeySlot) (rel : Int) : PsaKeySlot :=
  { slot with var := slot.var / 2 ^ 32 * 2 ^ 32 + (rel % 2 ^ 32).toNat }

end PsaKeySlot

def psaKeySlotHasReaders (slot : PsaKeySlot) : Bool := slot.registeredReaders > 0

def psaKeySlotStateTransition (slot : PsaKeySlot) (expectedState newState : SlotState) :
    PsaStatus × PsaKeySlot :=
  if slot.state ≠ expectedState then (.errorCorruptionDetected, slot)
  else (.success, { slot with state := newState })

def psaRegisterRead (cfg : Config) (slot : PsaKeySlot) : PsaStatus × PsaKeySlot :=
  if slot.state ≠ .full ∨ slot.registeredReaders ≥ cfg.sizeMod - 1 then
    (.errorCorruptionDetected, slot)
  else
    (.success, { slot with var := slot.registeredReaders + 1 })

/-! ## The table -/

/-- A call of `psa_wipe_key_slot`, and what it returned. -/
structure WipeCall where
  slot : SlotPtr
  status : PsaStatus
  deriving DecidableEq

/-- `psa_global_data_t`. The slots of a slice that is not allocated are clear. `wiped` is the
history of the calls of `psa_wipe_key_slot`; no function reads it. -/
structure PsaGlobalData where
  keySlices : Nat → Bool
  keySlots : SlotPtr → PsaKeySlot
  firstFreeSlotIndex : Nat → Nat
  keySlotsInitialized : Bool
  wiped : List WipeCall

structure SlotResult where
  status : PsaStatus
  slot : Option SlotPtr
  keyId : PsaKeyId
  g : PsaGlobalData

namespace PsaGlobalData

variable (g : PsaGlobalData)

def setSlot (p : SlotPtr) (slot : PsaKeySlot) : PsaGlobalData :=
  { g with keySlots := Function.update g.keySlots p slot }

def returns (status : PsaStatus) (slot : Option SlotPtr) (keyId : PsaKeyId) : SlotResult :=
  { status := status, slot := slot, keyId := keyId, g := g }

def wipes (p : SlotPtr) (status : PsaStatus) : PsaStatus × PsaGlobalData :=
  (status, { g with wiped := g.wiped ++ [{ slot := p, status := status }] })

end PsaGlobalData

variable (cfg : Config)

def getVolatileKeySlot (g : PsaGlobalData) (keyId : PsaKeyId) : Option SlotPtr :=
  if cfg.dynamic then
    let sliceIdx := sliceIndexOfVolatileKeyId keyId
    let slotIdx := slotIndexOfVolatileKeyId keyId
    if sliceIdx ≥ keySlotVolatileSliceCount then none
    else if slotIdx ≥ cfg.keySliceLength sliceIdx then none
    else if g.keySlices sliceIdx = false then none
    else some ⟨sliceIdx, slotIdx⟩
  else
    some ⟨0, keyId.toNat - psaKeyIdVolatileMin⟩

def getPersistentKeySlot (slotIdx : Nat) : SlotPtr := ⟨cfg.cacheSlice, slotIdx⟩

/-- Where the free list of a slice goes on after a slot; the sum is one of `size_t`. -/
def nextFree (slot : PsaKeySlot) (slotIdx : Nat) : Nat :=
  ((slotIdx + 1 + slot.nextFreeRelativeToNext) % cfg.sizeMod).toNat

def psaAllocateVolatileKeySlot (calloc : Bool) (g : PsaGlobalData) : SlotResult :=
  let found := (List.range keySlotVolatileSliceCount).find? fun sliceIdx =>
    g.firstFreeSlotIndex sliceIdx ≠ cfg.freeSlotIndexNone
  match found with
  | none => g.returns .errorInsufficientMemory none 0
  | some sliceIdx =>
    if g.keySlices sliceIdx = false ∧ calloc = false then
      g.returns .errorInsufficientMemory none 0
    else
      let g := { g with keySlices := Function.update g.keySlices sliceIdx true }
      let slotIdx := g.firstFreeSlotIndex sliceIdx
      let keyId := volatileKeyIdOfIndex sliceIdx slotIdx
      let p : SlotPtr := ⟨sliceIdx, slotIdx⟩
      let slot := g.keySlots p
      let next := nextFree cfg slot slotIdx
      let next := if next ≥ cfg.keySliceLength sliceIdx then cfg.freeSlotIndexNone else next
      let g := { g with
        firstFreeSlotIndex := Function.update g.firstFreeSlotIndex sliceIdx next }
      let slot := slot.setNextFreeRelativeToNext 0
      let r := psaKeySlotStateTransition slot .empty .filling
      if r.1 ≠ .success then (g.setSlot p r.2).returns r.1 none keyId
      else (g.setSlot p { r.2 with sliceIndex := sliceIdx }).returns .success (some p) keyId

def psaFreeKeySlot (g : PsaGlobalData) (sliceIdx : Nat) (p : SlotPtr) :
    PsaStatus × PsaGlobalData :=
  if sliceIdx = cfg.cacheSlice then (.success, g)
  else if sliceIdx ≥ keySlotVolatileSliceCount then (.errorCorruptionDetected, g)
  else if ¬ (p.slice = sliceIdx ∧ p.index < cfg.keySliceLength sliceIdx) then
    (.errorCorruptionDetected, g)
  else
    let next := g.firstFreeSlotIndex sliceIdx
    let next := if next ≥ cfg.keySliceLength sliceIdx then cfg.keySliceLength sliceIdx else next
    let g := { g with
      firstFreeSlotIndex := Function.update g.firstFreeSlotIndex sliceIdx p.index }
    (.success, g.setSlot p ((g.keySlots p).setNextFreeRelativeToNext ((next : Int) - p.index - 1)))

def psaWipeKeySlot (g : PsaGlobalData) (p : SlotPtr) : PsaStatus × PsaGlobalData :=
  let slot := g.keySlots p
  let status : PsaStatus :=
    match slot.state with
    | .full | .pendingDeletion =>
      if slot.registeredReaders ≠ 1 then .errorCorruptionDetected else .success
    | .filling => if slot.registeredReaders ≠ 0 then .errorCorruptionDetected else .success
    | .empty => .errorCorruptionDetected
  let g := g.setSlot p .zero
  if cfg.dynamic ∧ status = .success then
    let r := psaFreeKeySlot cfg g slot.sliceIndex p
    r.2.wipes p r.1
  else
    g.wipes p status

def psaUnregisterRead (g : PsaGlobalData) (p : SlotPtr) : PsaStatus × PsaGlobalData :=
  let slot := g.keySlots p
  if slot.state ≠ .full ∧ slot.state ≠ .pendingDeletion then (.errorCorruptionDetected, g)
  else if slot.state = .pendingDeletion ∧ slot.registeredReaders = 1 then psaWipeKeySlot cfg g p
  else if psaKeySlotHasReaders slot then
    (.success, g.setSlot p { slot with var := slot.registeredReaders - 1 })
  else
    (.errorCorruptionDetected, g)

/-! ## Finding a slot -/

def psaGetAndLockKeySlotInMemory (g : PsaGlobalData) (key : PsaKeyId) : SlotResult :=
  let register (p : SlotPtr) : SlotResult :=
    let r := psaRegisterRead cfg (g.keySlots p)
    if r.1 = .success then (g.setSlot p r.2).returns .success (some p) key
    else g.returns r.1 none key
  let holds (p : SlotPtr) : Bool := (g.keySlots p).state = .full ∧ key = (g.keySlots p).attr.id
  if cfg.psaKeyIdIsVolatile key then
    match getVolatileKeySlot cfg g key with
    | some p => if holds p then register p else g.returns .errorDoesNotExist none key
    | none => g.returns .errorDoesNotExist none key
  else if psaKeyIdIsUser key ∨ psaKeyIdIsBuiltin key then
    match (List.range cfg.slotCount).find? fun slotIdx => holds (getPersistentKeySlot cfg slotIdx)
    with
    | some slotIdx => register (getPersistentKeySlot cfg slotIdx)
    | none => g.returns .errorDoesNotExist none key
  else
    g.returns .errorInvalidHandle none key

/-- `psa_reserve_free_key_slot`: the first empty slot, and the first before it to be evicted. -/
def reserveScan (g : PsaGlobalData) : List Nat → Option Nat → Option Nat × Option Nat
  | [], unused => (none, unused)
  | slotIdx :: rest, unused =>
    let slot := g.keySlots (getPersistentKeySlot cfg slotIdx)
    if slot.state = .empty then (some slotIdx, unused)
    else
      reserveScan g rest
        (if unused = none ∧ slot.state = .full ∧ ¬ psaKeySlotHasReaders slot ∧
            ¬ psaKeyLifetimeIsVolatile slot.attr.lifetime then some slotIdx
          else unused)

/-- `wantsVolatile` says that `volatile_key_id` is not null. -/
def psaReserveFreeKeySlot (calloc : Bool) (g : PsaGlobalData) (wantsVolatile : Bool) :
    SlotResult :=
  let fill (g : PsaGlobalData) (slotIdx : Nat) : SlotResult :=
    let p := getPersistentKeySlot cfg slotIdx
    let r := psaKeySlotStateTransition (g.keySlots p) .empty .filling
    if r.1 ≠ .success then g.returns r.1 none 0
    else
      let slot := if cfg.dynamic then { r.2 with sliceIndex := cfg.cacheSlice } else r.2
      (g.setSlot p slot).returns .success (some p)
        (if wantsVolatile then BitVec.ofNat 32 (psaKeyIdVolatileMin + slotIdx) else 0)
  if g.keySlotsInitialized = false then g.returns .errorBadState none 0
  else if cfg.dynamic ∧ wantsVolatile then psaAllocateVolatileKeySlot cfg calloc g
  else
    match reserveScan cfg g (List.range cfg.slotCount) none with
    | (some slotIdx, _) => fill g slotIdx
    | (none, none) => g.returns .errorInsufficientMemory none 0
    | (none, some slotIdx) =>
      let p := getPersistentKeySlot cfg slotIdx
      let g := g.setSlot p (psaRegisterRead cfg (g.keySlots p)).2
      let r := psaWipeKeySlot cfg g p
      if r.1 ≠ .success then r.2.returns r.1 none 0
      else fill r.2 slotIdx

end TfPsaCrypto.KeyStore
