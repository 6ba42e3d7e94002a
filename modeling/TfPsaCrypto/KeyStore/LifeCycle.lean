import TfPsaCrypto.KeyStore.FreeSlots
import TfPsaCrypto.Storage.Persistent

/-!
# The life of a key

Creation, use and destruction of a key in the key store. The functions work on the table under one
mutex, so that the calls of all threads form one sequence.
-/

namespace TfPsaCrypto.KeyStore

open Bytes Function

variable (cfg : Config) (g : PsaGlobalData)

def psaValidateKeyPersistence (lifetime : PsaKeyLifetime) : PsaStatus :=
  if psaKeyLifetimeIsVolatile lifetime then .success
  else if psaKeyLifetimeIsReadOnly lifetime then .errorInvalidArgument
  else .success

/-- The usage flags, without the one that is not in the specification. -/
def psaValidateKeyPolicy (policy : PsaKeyPolicy) : PsaStatus :=
  if policy.usage &&& ~~~0xff03 ≠ 0 then .errorInvalidArgument else .success

def psaValidateKeyAttributes (attributes : PsaKeyAttributes) : PsaStatus :=
  let status := psaValidateKeyPersistence attributes.lifetime
  if status ≠ .success then status
  else if psaKeyLifetimeIsVolatile attributes.lifetime ∧ attributes.id ≠ 0 then
    .errorInvalidArgument
  else if ¬ psaKeyLifetimeIsVolatile attributes.lifetime ∧ ¬ psaKeyIdIsUser attributes.id then
    .errorInvalidArgument
  else
    let status := psaValidateKeyPolicy attributes.policy
    if status ≠ .success then status
    else if attributes.bits.toNat > 0xfff8 then .errorNotSupported
    else .success

def psaStartKeyCreation (calloc : Bool) (attributes : PsaKeyAttributes) : SlotResult :=
  let status := psaValidateKeyAttributes attributes
  if status ≠ .success then g.returns status none 0
  else
    let keyIsVolatile := psaKeyLifetimeIsVolatile attributes.lifetime
    let r := psaReserveFreeKeySlot cfg calloc g keyIsVolatile
    match r.slot with
    | none => r
    | some p =>
      let id := if keyIsVolatile then r.keyId else attributes.id
      let slot := { r.g.keySlots p with attr := { attributes with id := id } }
      (r.g.setSlot p slot).returns r.status (some p) id

def psaFinishKeyCreation (scfg : StorageConfig) (env : SaveEnv) (its : Its) (slot : PsaKeySlot) :
    PsaStatus × PsaKeySlot × Its :=
  let r :=
    if psaKeyLifetimeIsVolatile slot.attr.lifetime then (.success, its)
    else psaSavePersistentKey scfg env its slot.attr slot.key
  if r.1 ≠ .success then (r.1, slot, r.2)
  else
    let t := psaKeySlotStateTransition slot .filling .full
    (t.1, t.2, r.2)

/-- `calloc` says whether the copy of the key can be allocated. -/
def psaLoadPersistentKeyIntoSlot (scfg : StorageConfig) (env : LoadEnv) (calloc : Bool) (its : Its)
    (slot : PsaKeySlot) : PsaStatus × PsaKeySlot :=
  if ¬ psaKeyIdIsUser slot.attr.id then (.errorDoesNotExist, slot)
  else
    let r := psaLoadPersistentKey scfg env its slot.attr
    let slot := { slot with attr := r.attr }
    if r.status ≠ .success then (r.status, slot)
    else if calloc = false then (.errorInsufficientMemory, slot)
    else (.success, { slot with key := r.keyData.getD [] })

/-- `load` is `psa_load_persistent_key_into_slot`. -/
def psaGetAndLockKeySlot (load : PsaKeySlot → PsaStatus × PsaKeySlot) (key : PsaKeyId) :
    SlotResult :=
  if g.keySlotsInitialized = false then g.returns .errorBadState none key
  else
    let r := psaGetAndLockKeySlotInMemory cfg g key
    if r.status ≠ .errorDoesNotExist then r
    else
      -- A slot of the cache needs no allocation.
      let r := psaReserveFreeKeySlot cfg true r.g false
      match r.slot with
      | none => r.g.returns r.status none key
      | some p =>
        let slot := r.g.keySlots p
        let attr := { slot.attr with id := key, lifetime := psaKeyLifetimePersistent }
        let l := load { slot with attr := attr }
        if l.1 ≠ .success then
          (psaWipeKeySlot cfg (r.g.setSlot p l.2) p).2.returns
            (if l.1 = .errorDoesNotExist then .errorInvalidHandle else l.1) none key
        else
          let usage := psaExtendKeyUsageFlags l.2.attr.policy.usage
          let attr := { l.2.attr with policy := { l.2.attr.policy with usage := usage } }
          let slot := (psaKeySlotStateTransition { l.2 with attr := attr } .filling .full).2
          let t := psaRegisterRead cfg slot
          (r.g.setSlot p t.2).returns t.1 (if t.1 = .success then some p else none) key

/-- `psa_destroy_key` from where the key is locked. -/
def psaDestroyKey (env : DestroyEnv) (its : Its) (p : SlotPtr) :
    PsaStatus × PsaGlobalData × Its :=
  let slot := g.keySlots p
  if slot.state = .pendingDeletion then
    let r := psaUnregisterRead cfg g p
    (if r.1 = .success then .errorInvalidHandle else r.1, r.2, its)
  else
    let t := psaKeySlotStateTransition slot .full .pendingDeletion
    let d :=
      if t.1 ≠ .success then (t.1, its)
      else if psaKeyLifetimeIsReadOnly slot.attr.lifetime then (.errorNotPermitted, its)
      else if psaKeyLifetimeIsVolatile slot.attr.lifetime then (.success, its)
      else psaDestroyPersistentKey env its slot.attr.id
    let r := psaUnregisterRead cfg (g.setSlot p t.2) p
    (if r.1 ≠ .success then r.1 else d.1, r.2, d.2)

def psaPurgeKey (key : PsaKeyId) : PsaStatus × PsaGlobalData :=
  let r := psaGetAndLockKeySlotInMemory cfg g key
  match r.slot with
  | none => (r.status, r.g)
  | some p =>
    let slot := r.g.keySlots p
    if ¬ psaKeyLifetimeIsVolatile slot.attr.lifetime ∧ slot.registeredReaders = 1 then
      psaWipeKeySlot cfg r.g p
    else psaUnregisterRead cfg r.g p

/-! ## The machine -/

/-- The table, and how many registrations the users of a slot hold. -/
structure Store where
  g : PsaGlobalData
  held : SlotPtr → Nat

structure System where
  store : Store
  its : Its

def System.init (its : Its) : System :=
  { store := { g := .init cfg, held := fun _ => 0 }, its := its }

/-- The calls, with the failures of the platform; `fill` is the work of a creator between `start`
and `finish`. -/
inductive KeyCall where
  | lock (env : LoadEnv) (calloc : Bool) (key : PsaKeyId)
  | unlock (p : SlotPtr)
  | start (calloc : Bool) (attributes : PsaKeyAttributes)
  | fill (p : SlotPtr) (type : PsaKeyType) (bits : PsaKeyBits) (key : ByteString)
  | finish (env : SaveEnv) (p : SlotPtr)
  | fail (p : SlotPtr)
  | destroy (env : DestroyEnv) (p : SlotPtr)
  | purge (key : PsaKeyId)

/-- The slot that a call returns or works on, and the identifier of the key. -/
structure KeyResult where
  status : PsaStatus
  slot : Option SlotPtr
  id : PsaKeyId

/-- Who gets a slot holds one registration more. -/
def Store.locked (s : Store) (r : SlotResult) : Store :=
  match r.slot with
  | some p => { g := r.g, held := update s.held p (s.held p + 1) }
  | none => { s with g := r.g }

/-- Users unlock and destroy what they have locked, and creators fill what they have started. -/
def keyMachine (scfg : StorageConfig) : Machine.StepFn System KeyCall KeyResult
  | ⟨s, its⟩, .lock env calloc key =>
    let r := psaGetAndLockKeySlot cfg s.g (psaLoadPersistentKeyIntoSlot scfg env calloc its) key
    some (⟨s.locked r, its⟩, ⟨r.status, r.slot, key⟩)
  | ⟨s, its⟩, .unlock p =>
    if 0 < s.held p then
      let r := psaUnregisterRead cfg s.g p
      some (⟨⟨r.2, update s.held p (s.held p - 1)⟩, its⟩,
        ⟨r.1, some p, (s.g.keySlots p).attr.id⟩)
    else none
  | ⟨s, its⟩, .start calloc attributes =>
    let r := psaStartKeyCreation cfg s.g calloc attributes
    some (⟨⟨r.g, s.held⟩, its⟩, ⟨r.status, r.slot, r.keyId⟩)
  | ⟨s, its⟩, .fill p type bits key =>
    let slot := s.g.keySlots p
    if slot.state = .filling then
      let attr := { slot.attr with type := type, bits := bits }
      let g := s.g.setSlot p { slot with attr := attr, key := key }
      some (⟨⟨g, s.held⟩, its⟩, ⟨.success, some p, slot.attr.id⟩)
    else none
  | ⟨s, its⟩, .finish env p =>
    let slot := s.g.keySlots p
    if slot.state = .filling then
      let r := psaFinishKeyCreation scfg env its slot
      some (⟨⟨s.g.setSlot p r.2.1, s.held⟩, r.2.2⟩, ⟨r.1, some p, slot.attr.id⟩)
    else none
  | ⟨s, its⟩, .fail p =>
    let slot := s.g.keySlots p
    if slot.state = .filling then
      let r := psaWipeKeySlot cfg s.g p
      some (⟨⟨r.2, s.held⟩, its⟩, ⟨r.1, some p, slot.attr.id⟩)
    else none
  | ⟨s, its⟩, .destroy env p =>
    if 0 < s.held p then
      let r := psaDestroyKey cfg s.g env its p
      some (⟨⟨r.2.1, update s.held p (s.held p - 1)⟩, r.2.2⟩,
        ⟨r.1, some p, (s.g.keySlots p).attr.id⟩)
    else none
  | ⟨s, its⟩, .purge key =>
    let r := psaPurgeKey cfg s.g key
    some (⟨⟨r.2, s.held⟩, its⟩, ⟨r.1, none, key⟩)

end TfPsaCrypto.KeyStore
