import TfPsaCrypto.KeyStore.Readers

/-!
# The keys in the key store

At most one slot holds a key, and a persistent key in a slot is one in the storage.
-/

namespace TfPsaCrypto.KeyStore

open Bytes Function

variable {cfg : Config} {scfg : StorageConfig} {p : SlotPtr} {slot : PsaKeySlot}
  {s s' : Store} {its its' : Its} {key : PsaKeyId} {attr : PsaKeyAttributes}
  {data : ByteString}

/-! ## The storage -/

theorem psaItsIdentifierOfSlot_injective : Injective psaItsIdentifierOfSlot := by
  intro k k' h
  unfold psaItsIdentifierOfSlot at h
  have hnat := congrArg BitVec.toNat h
  simp only [BitVec.toNat_setWidth] at hnat
  exact BitVec.eq_of_toNat_eq (by omega)

theorem storedKey_congr (h : its' (psaItsIdentifierOfSlot key) = its (psaItsIdentifierOfSlot key)) :
    storedKey scfg its' key = storedKey scfg its key := by
  unfold storedKey
  rw [h]

theorem psaSavePersistentKey_cases (scfg : StorageConfig) (its : Its) (attr : PsaKeyAttributes)
    (data : ByteString) (env : SaveEnv) :
    let r := psaSavePersistentKey scfg env its attr data
    (r.2 = its ∧ r.1 ≠ .success) ∨
      (its (psaItsIdentifierOfSlot attr.id) = none ∧ 0 < data.length ∧
        data.length ≤ scfg.psaCryptoMaxStorageSize ∧ (r.1 = .success ∨ env.remove ≠ none) ∧
        r.2 = update its (psaItsIdentifierOfSlot attr.id)
          (some (psaFormatKeyDataForStorage data attr))) := by
  unfold psaSavePersistentKey
  by_cases hzero : data.length = 0
  · simp [hzero]
  by_cases hmax : data.length > scfg.psaCryptoMaxStorageSize
  · simp [hzero, hmax]
  by_cases hmem : env.calloc = false
  · simp [hzero, hmax, hmem]
  rw [if_neg hzero, if_neg hmax, if_neg hmem]
  rcases psaCryptoStorageStore_cases env its attr.id
      (length_format_lt attr (Nat.le_of_not_lt hmax)) with
    ⟨heq, _⟩ | ⟨habsent, heq⟩ | ⟨habsent, hne, heq | ⟨hremove, heq⟩⟩
  · exact .inl ⟨by rw [heq], by simp [heq]⟩
  · exact .inr ⟨habsent, by omega, by omega, .inl (by rw [heq]), by rw [heq]⟩
  · exact .inl ⟨heq, hne⟩
  · exact .inr ⟨habsent, by omega, by omega, .inr hremove, heq⟩

/-- The file of a key that is destroyed is left, or removed. -/
theorem psaDestroyPersistentKey_self (env : DestroyEnv) (key : PsaKeyId) :
    let uid := psaItsIdentifierOfSlot key
    (psaDestroyPersistentKey env its key).2 uid = its uid ∨
      (psaDestroyPersistentKey env its key).2 uid = none := by
  have hremove : ∀ fault, let uid := psaItsIdentifierOfSlot key
      (psaItsRemove fault its uid).2 uid = its uid ∨ (psaItsRemove fault its uid).2 uid = none := by
    intro fault
    unfold psaItsRemove
    dsimp only
    split
    · exact .inl rfl
    · exact .inl rfl
    · exact .inr (update_self _ _ _)
  unfold psaDestroyPersistentKey
  dsimp only
  split_ifs
  · exact .inl rfl
  all_goals exact hremove _

theorem psaDestroyPersistentKey_ne (env : DestroyEnv) (key : PsaKeyId) :
    (psaDestroyPersistentKey env its key).1 ≠ .errorCorruptionDetected := by
  unfold psaDestroyPersistentKey
  dsimp only
  split_ifs <;> simp

theorem psaLoadPersistentKey_id (env : LoadEnv) :
    (psaLoadPersistentKey scfg env its attr).attr.id = attr.id := by
  have hparse : ∀ (calloc : Bool) (file : ByteString) (out : ParsedKey),
      (psaParseKeyDataFromStorage scfg calloc file out).attr.id = out.attr.id := by
    intro calloc file out
    unfold psaParseKeyDataFromStorage
    dsimp only
    split_ifs <;> rfl
  unfold psaLoadPersistentKey
  dsimp only
  split_ifs
  · rfl
  · rfl
  · rfl
  · exact hparse _ _ _
  · exact hparse _ _ _

/-! ## The invariant -/

/-- The key in a slot is that in the storage, up to its implicit usage flags. -/
def Stored (scfg : StorageConfig) (its : Its) (slot : PsaKeySlot) : Prop :=
  ∃ attr, storedKey scfg its slot.attr.id = some (attr, slot.key) ∧
    (slot.attr = attr ∨ slot.attr = extended attr)

def FullOk (cfg : Config) (scfg : StorageConfig) (its : Its) (p : SlotPtr) (slot : PsaKeySlot) :
    Prop :=
  cfg.psaKeyIdIsVolatile slot.attr.id = true ∨ (PersistentOk cfg p slot ∧ Stored scfg its slot)

structure KeysOk (cfg : Config) (scfg : StorageConfig) (s : Store) (its : Its) : Prop where
  filling : ∀ p, (s.g.keySlots p).state = .filling → FillingOk cfg p (s.g.keySlots p)
  full : ∀ p, (s.g.keySlots p).state = .full → FullOk cfg scfg its p (s.g.keySlots p)
  unique : ∀ p q, (s.g.keySlots p).state = .full → (s.g.keySlots q).state = .full →
    (s.g.keySlots p).attr.id = (s.g.keySlots q).attr.id → p = q

theorem Kept.keys (hk : KeysOk cfg scfg s its) (h : Kept cfg p s s')
    (hfilling : (s'.g.keySlots p).state = .filling → FillingOk cfg p (s'.g.keySlots p))
    (hfull : (s'.g.keySlots p).state = .full → FullOk cfg scfg its' p (s'.g.keySlots p) ∧
      ∀ q ≠ p, (s.g.keySlots q).state = .full →
        (s.g.keySlots q).attr.id ≠ (s'.g.keySlots p).attr.id)
    (hits : ∀ q ≠ p, (s.g.keySlots q).state = .full → Stored scfg its (s.g.keySlots q) →
      Stored scfg its' (s.g.keySlots q)) : KeysOk cfg scfg s' its' := by
  refine ⟨fun q hq => ?_, fun q hq => ?_, fun q q' hq hq' heq => ?_⟩
  · by_cases hqp : q = p
    · subst hqp
      exact hfilling hq
    · rw [(h.other q hqp).1] at hq ⊢
      exact hk.filling q hq
  · by_cases hqp : q = p
    · subst hqp
      exact (hfull hq).1
    · rw [(h.other q hqp).1] at hq ⊢
      exact (hk.full q hq).imp_right (And.imp_right (hits q hqp hq))
  · by_cases hqp : q = p <;> by_cases hqp' : q' = p
    · rw [hqp, hqp']
    · subst hqp
      rw [(h.other q' hqp').1] at hq' heq
      exact absurd heq.symm ((hfull hq).2 q' hqp' hq')
    · subst hqp'
      rw [(h.other q hqp).1] at hq heq
      exact absurd heq ((hfull hq').2 q hqp hq)
    · rw [(h.other q hqp).1] at hq heq
      rw [(h.other q' hqp').1] at hq' heq
      exact hk.unique q q' hq hq' heq

/-- Where no key is created, the storage may change in other keys than those in the slots. -/
theorem Quiet.keys (hk : KeysOk cfg scfg s its) (h : Quiet cfg p s s')
    (hits : ∀ q, (s'.g.keySlots q).state = .full → (s.g.keySlots q).state = .full →
      storedKey scfg its' (s.g.keySlots q).attr.id = storedKey scfg its (s.g.keySlots q).attr.id) :
    KeysOk cfg scfg s' its' := by
  have hstored : ∀ q, (s'.g.keySlots q).state = .full → (s.g.keySlots q).state = .full →
      Stored scfg its (s.g.keySlots q) → Stored scfg its' (s.g.keySlots q) := by
    rintro q hq' hq ⟨attr, heq, hattr⟩
    exact ⟨attr, (hits q hq' hq).trans heq, hattr⟩
  apply h.toKept.keys hk
  · intro hs
    obtain ⟨hold, hid, hlifetime⟩ := h.filling hs
    have hok := hk.filling p hold
    unfold FillingOk PersistentOk at hok ⊢
    rw [hid, hlifetime]
    exact hok
  · intro hs
    obtain ⟨hold, hattr, hkey⟩ := h.full hs
    have hok := (hk.full p hold).imp_right (And.imp_right (hstored p hs hold))
    unfold FullOk PersistentOk Stored at hok ⊢
    rw [hattr, hkey]
    exact ⟨hok, fun q hq hfull heq => hq (hk.unique q p hfull hold heq)⟩
  · intro q hq hfull
    exact hstored q (by rwa [(h.other q hq).1]) hfull

/-! ## The calls -/

/-- The storage itself reports a corruption. -/
def Corrupted (scfg : StorageConfig) (its : Its) : KeyCall → Prop
  | .lock env _ _ =>
    ∃ attr, (psaLoadPersistentKey scfg env its attr).status = .errorCorruptionDetected
  | .finish env _ =>
    ∃ attr data, (psaSavePersistentKey scfg env its attr data).1 = .errorCorruptionDetected
  | _ => False

/-- The stored key, if there is one, is not marked as volatile. -/
def StoredPersistent (scfg : StorageConfig) (its : Its) (key : PsaKeyId) : Prop :=
  ∀ attr data, storedKey scfg its key = some (attr, data) →
    ¬ psaKeyLifetimeIsVolatile attr.lifetime = true

/-- What a call does. A key gets into a slot only where its creation is finished or where it is
stored, and gets into the storage only where its creation is finished. -/
structure StepOk (cfg : Config) (scfg : StorageConfig) (σ σ' : System) (a : KeyCall)
    (o : KeyResult) : Prop where
  kept : ∃ p, Kept cfg p σ.store σ'.store
  keys : KeysOk cfg scfg σ'.store σ'.its
  sound : o.status = .errorCorruptionDetected →
    Corrupted scfg σ.its a ∨ ReadersFull cfg σ.store
  full : ∀ q, (σ'.store.g.keySlots q).state = .full →
    ((σ.store.g.keySlots q).state = .full ∧
      (σ'.store.g.keySlots q).attr.id = (σ.store.g.keySlots q).attr.id) ∨
    (o.status = .success ∧ o.id = (σ'.store.g.keySlots q).attr.id ∧
      ((∃ env, a = .finish env q) ∨
        (psaKeyIdIsUser o.id = true ∧ storedKey scfg σ.its o.id ≠ none)))
  its : ∀ key, let uid := psaItsIdentifierOfSlot key
    σ'.its uid = σ.its uid ∨ (σ'.its uid = none ∧ ∃ env p, a = .destroy env p ∧ o.id = key) ∨
    (σ.its uid = none ∧ StoredPersistent scfg σ'.its key ∧
      ∃ env p, a = .finish env p ∧ o.id = key ∧ (o.status = .success ∨ env.remove ≠ none))

variable {a : KeyCall} {o : KeyResult} {q : SlotPtr}

theorem Quiet.full_of (h : Quiet cfg p s s') (hq : (s'.g.keySlots q).state = .full) :
    (s.g.keySlots q).state = .full ∧ (s'.g.keySlots q).attr = (s.g.keySlots q).attr := by
  by_cases hqp : q = p
  · subst hqp
    exact ⟨(h.full hq).1, (h.full hq).2.1⟩
  · rw [(h.other q hqp).1] at hq ⊢
    exact ⟨hq, rfl⟩

theorem Quiet.step (h : Quiet cfg p s s') (hk : KeysOk cfg scfg s its)
    (hsound : o.status = .errorCorruptionDetected → Corrupted scfg its a ∨ ReadersFull cfg s) :
    StepOk cfg scfg ⟨s, its⟩ ⟨s', its⟩ a o := by
  refine ⟨⟨p, h.toKept⟩, h.keys hk fun _ _ _ => rfl, hsound, fun q hq => ?_, fun _ => .inl rfl⟩
  obtain ⟨hold, hattr⟩ := h.full_of hq
  exact .inl ⟨hold, congrArg PsaKeyAttributes.id hattr⟩

theorem loadOk (scfg : StorageConfig) (its : Its) (env : LoadEnv) (calloc : Bool) :
    LoadOk (psaLoadPersistentKeyIntoSlot scfg env calloc its) := by
  intro slot
  unfold psaLoadPersistentKeyIntoSlot
  dsimp only
  split_ifs <;> simp_all [psaLoadPersistentKey_id]

theorem psaLoadPersistentKeyIntoSlot_success {env : LoadEnv} {calloc : Bool}
    (h : (psaLoadPersistentKeyIntoSlot scfg env calloc its slot).1 = .success) :
    storedKey scfg its slot.attr.id =
      some ((psaLoadPersistentKeyIntoSlot scfg env calloc its slot).2.attr,
        (psaLoadPersistentKeyIntoSlot scfg env calloc its slot).2.key) := by
  unfold psaLoadPersistentKeyIntoSlot at h ⊢
  dsimp only at h ⊢
  split_ifs at h ⊢ with huser hload
  · exact absurd h hload
  rw [not_not] at hload
  obtain ⟨data, hdata, hstored⟩ := psaLoadPersistentKey_success hload
  rw [hstored, hdata]
  rfl

theorem psaLoadPersistentKeyIntoSlot_corrupted {env : LoadEnv} {calloc : Bool}
    (h : (psaLoadPersistentKeyIntoSlot scfg env calloc its slot).1 = .errorCorruptionDetected) :
    (psaLoadPersistentKey scfg env its slot.attr).status = .errorCorruptionDetected := by
  unfold psaLoadPersistentKeyIntoSlot at h
  dsimp only at h
  split_ifs at h
  exact h

theorem StoreOk.lock_step (h : StoreOk cfg s) (hk : KeysOk cfg scfg s its) (env : LoadEnv)
    (calloc : Bool) (key : PsaKeyId) :
    let r := psaGetAndLockKeySlot cfg s.g (psaLoadPersistentKeyIntoSlot scfg env calloc its) key
    StepOk cfg scfg ⟨s, its⟩ ⟨s.locked r, its⟩ (.lock env calloc key) ⟨r.status, r.slot, key⟩ := by
  intro r
  rcases h.getAndLock (loadOk scfg its env calloc) key with
    ⟨hslot, ⟨p, hq⟩, hsound⟩ | ⟨p, hstatus, hslot, _, _, hq⟩ |
    ⟨p, slot, hstatus, hslot, hfull, hid, hload, habsent, hcache, hattr, hkey, hkept⟩
  · have hlocked : s.locked r = ⟨r.g, s.held⟩ := by simp only [Store.locked, r, hslot]
    rw [hlocked]
    refine hq.step hk fun hs => ?_
    rcases hsound hs with ⟨slot, hcor⟩ | hfull
    · exact .inl ⟨_, psaLoadPersistentKeyIntoSlot_corrupted hcor⟩
    · exact .inr hfull
  · have hlocked : s.locked r = ⟨r.g, update s.held p (s.held p + 1)⟩ := by
      simp only [Store.locked, r, hslot]
    rw [hlocked]
    exact hq.step hk fun hs => absurd (hstatus.symm.trans hs) (by simp)
  · have hlocked : s.locked r = ⟨r.g, update s.held p (s.held p + 1)⟩ := by
      simp only [Store.locked, r, hslot]
    rw [hlocked]
    have huser := (loadOk scfg its env calloc slot).2.2.2.2 hload
    have hid' : (psaLoadPersistentKeyIntoSlot scfg env calloc its slot).2.attr.id = key :=
      ((loadOk scfg its env calloc slot).2.2.2.1).trans hid
    have hstored := psaLoadPersistentKeyIntoSlot_success hload
    have hkeyId : (r.g.keySlots p).attr.id = key := by rw [hattr]; exact hid'
    rw [hid] at huser hstored
    refine ⟨⟨p, hkept⟩, hkept.keys hk (fun hs => absurd (hfull.symm.trans hs) (by simp))
      (fun _ => ⟨.inr ⟨⟨?_, hcache⟩, _, ?_, .inr hattr⟩, ?_⟩) (fun _ _ _ => id),
      fun hs => absurd (hstatus.symm.trans hs) (by simp), fun q hq => ?_, fun _ => .inl rfl⟩
    · rw [hkeyId]
      exact huser
    · rw [hkeyId, hkey]
      exact hstored
    · intro q _ hq
      rw [hkeyId]
      rcases hk.full q hq with hv | ⟨⟨_, i, hi, hp⟩, _⟩
      · rintro heq
        exact not_volatile_of_user huser (heq ▸ hv)
      · exact lockInMemory_absent (not_volatile_of_user huser) habsent hi hp hq
    · by_cases hqp : q = p
      · subst hqp
        exact .inr ⟨hstatus, hkeyId.symm, .inr ⟨huser, by simp [hstored]⟩⟩
      · rw [(hkept.other q hqp).1] at hq ⊢
        exact .inl ⟨hq, rfl⟩

theorem UsedOk.unique {slot' : PsaKeySlot} (h : UsedOk cfg p slot) (h' : UsedOk cfg q slot')
    (hv : cfg.psaKeyIdIsVolatile slot.attr.id = true) (hid : slot.attr.id = slot'.attr.id) :
    p = q := by
  have hp := h.id hv { PsaGlobalData.init cfg with keySlices := fun _ => true } rfl
  have hq := h'.id (hid ▸ hv) { PsaGlobalData.init cfg with keySlices := fun _ => true } rfl
  rw [hid, hq] at hp
  exact (Option.some.inj hp).symm

/-- A key that is not in the storage is in no slot. -/
theorem KeysOk.absent (hk : KeysOk cfg scfg s its) (huser : psaKeyIdIsUser key = true)
    (hnone : its (psaItsIdentifierOfSlot key) = none) (hq : (s.g.keySlots q).state = .full) :
    (s.g.keySlots q).attr.id ≠ key := by
  rintro rfl
  rcases hk.full q hq with hv | ⟨_, attr, hstored, _⟩
  · exact not_volatile_of_user huser hv
  · simp [storedKey, hnone] at hstored

/-- Finishing a creation fails, or puts the key in the slot, and a persistent one in the storage. -/
theorem psaFinishKeyCreation_cases (scfg : StorageConfig) (its : Its)
    (hslot : slot.state = .filling) (env : SaveEnv) :
    let r := psaFinishKeyCreation scfg env its slot
    let uid := psaItsIdentifierOfSlot slot.attr.id
    (∀ u ≠ uid, r.2.2 u = its u) ∧
      ((psaKeyLifetimeIsVolatile slot.attr.lifetime = true ∧ r.2.2 = its) ∨
        (¬ psaKeyLifetimeIsVolatile slot.attr.lifetime = true ∧
          (r.2.2 = its ∨ its uid = none ∧ (r.1 = .success ∨ env.remove ≠ none) ∧
            storedKey scfg r.2.2 slot.attr.id = some (slot.attr, slot.key)))) ∧
      ((r.1 ≠ .success ∧ r.2.1 = slot ∧ ∃ attr data,
          (psaSavePersistentKey scfg env its attr data).1 = r.1) ∨
        (r.1 = .success ∧ r.2.1 = { slot with state := .full } ∧
          (¬ psaKeyLifetimeIsVolatile slot.attr.lifetime = true → its uid = none ∧
            storedKey scfg r.2.2 slot.attr.id = some (slot.attr, slot.key)))) := by
  unfold psaFinishKeyCreation
  dsimp only
  by_cases hvolatile : psaKeyLifetimeIsVolatile slot.attr.lifetime = true
  · rw [if_pos hvolatile]
    simp [hvolatile, psaKeySlotStateTransition, hslot]
  rw [if_neg hvolatile]
  have hcases := psaSavePersistentKey_cases scfg its slot.attr slot.key env
  generalize hr : psaSavePersistentKey scfg env its slot.attr slot.key = r at *
  have hother : ∀ u ≠ psaItsIdentifierOfSlot slot.attr.id, r.2 u = its u := by
    intro u hu
    rcases hcases with ⟨heq, _⟩ | ⟨_, _, _, _, heq⟩ <;> rw [heq]
    exact update_of_ne hu _ _
  have hnone : r.2 = its ∨ its (psaItsIdentifierOfSlot slot.attr.id) = none ∧
      (r.1 = .success ∨ env.remove ≠ none) ∧
      storedKey scfg r.2 slot.attr.id = some (slot.attr, slot.key) := by
    rcases hcases with ⟨heq, _⟩ | ⟨hnone, hpos, hmax, hstatus, heq⟩
    · exact .inl heq
    · exact .inr ⟨hnone, hstatus, storedKey_format hpos hmax (by rw [heq, update_self])⟩
  by_cases hstatus : r.1 = .success
  · obtain ⟨habsent, hpos, hmax, _, heq⟩ := hcases.resolve_left fun hc => hc.2 hstatus
    rw [if_neg (not_not.mpr hstatus), show psaKeySlotStateTransition slot .filling .full =
      (.success, { slot with state := .full }) by simp [psaKeySlotStateTransition, hslot]]
    exact ⟨hother, .inr ⟨hvolatile, hnone.imp_right fun hn => ⟨hn.1, .inl rfl, hn.2.2⟩⟩,
      .inr ⟨rfl, rfl, fun _ => ⟨habsent, storedKey_format hpos hmax (by rw [heq, update_self])⟩⟩⟩
  · rw [if_pos hstatus]
    exact ⟨hother, .inr ⟨hvolatile, hnone⟩, .inl ⟨hstatus, rfl, _, _, congrArg Prod.fst hr⟩⟩

theorem StoreOk.finish_step (h : StoreOk cfg s) (hk : KeysOk cfg scfg s its)
    (hp : (s.g.keySlots p).state = .filling) (env : SaveEnv) :
    let slot := s.g.keySlots p
    let r := psaFinishKeyCreation scfg env its slot
    StepOk cfg scfg ⟨s, its⟩ ⟨⟨s.g.setSlot p r.2.1, s.held⟩, r.2.2⟩ (.finish env p)
      ⟨r.1, some p, slot.attr.id⟩ := by
  intro slot r
  have hfilling := hk.filling p hp
  obtain ⟨hother, hits, hcases⟩ := psaFinishKeyCreation_cases scfg its hp env
  rw [show psaFinishKeyCreation scfg env its (s.g.keySlots p) = r from rfl] at hother hits hcases
  have hchange : ∀ key, let uid := psaItsIdentifierOfSlot key
      r.2.2 uid = its uid ∨ (slot.attr.id = key ∧ psaKeyIdIsUser key = true ∧ its uid = none ∧
        (r.1 = .success ∨ env.remove ≠ none) ∧ StoredPersistent scfg r.2.2 key) := by
    intro key uid
    obtain rfl | hkey := eq_or_ne key slot.attr.id
    · rcases hits with ⟨_, heq⟩ | ⟨hvolatile, heq | ⟨hnone, hstatus, hkey⟩⟩
      · exact .inl (by rw [heq])
      · exact .inl (by rw [heq])
      · unfold FillingOk at hfilling
        rw [if_neg hvolatile] at hfilling
        refine .inr ⟨rfl, hfilling.1, hnone, hstatus, fun attr data hstored => ?_⟩
        rw [hkey] at hstored
        cases hstored
        exact hvolatile
    · exact .inl (hother uid fun huid => hkey (psaItsIdentifierOfSlot_injective huid))
  have hsame : ∀ q, (s.g.keySlots q).state = .full →
      storedKey scfg r.2.2 (s.g.keySlots q).attr.id =
        storedKey scfg its (s.g.keySlots q).attr.id := by
    intro q hq
    rcases hchange (s.g.keySlots q).attr.id with heq | ⟨_, huser, hnone, _⟩
    · exact storedKey_congr heq
    · exact absurd rfl (hk.absent huser hnone hq)
  have hits' : ∀ key, let uid := psaItsIdentifierOfSlot key
      r.2.2 uid = its uid ∨
        (r.2.2 uid = none ∧ ∃ env' p', KeyCall.finish env p = .destroy env' p' ∧
          slot.attr.id = key) ∨
        (its uid = none ∧ StoredPersistent scfg r.2.2 key ∧
          ∃ env' p', KeyCall.finish env p = .finish env' p' ∧ slot.attr.id = key ∧
            (r.1 = .success ∨ env'.remove ≠ none)) := by
    intro key uid
    rcases hchange key with heq | ⟨hkey, _, hnone, hstatus, hpersistent⟩
    · exact .inl heq
    · exact .inr (.inr ⟨hnone, hpersistent, env, p, rfl, hkey, hstatus⟩)
  rcases hcases with ⟨hstatus, hslot, attr, data, hsave⟩ | ⟨hstatus, hslot, hstored⟩
  · have hg : s.g.setSlot p r.2.1 = s.g := by
      rw [hslot]
      simp [PsaGlobalData.setSlot]
    have hquiet : Quiet cfg p s s := h.quiet
    rw [hg]
    exact ⟨⟨p, hquiet.toKept⟩, hquiet.keys hk fun q _ => hsame q,
      fun hs => .inl ⟨attr, data, hsave.trans hs⟩, fun q hq => .inl ⟨hq, rfl⟩, hits'⟩
  have hself : (s.g.setSlot p r.2.1).keySlots p = { slot with state := .full } := by
    rw [hslot]
    exact update_self _ _ _
  have hkept : Kept cfg p s ⟨s.g.setSlot p r.2.1, s.held⟩ := by
    rw [hslot]
    exact h.write_filling _ hp (.inr rfl) rfl rfl (.inl rfl)
  have hfull : FullOk cfg scfg r.2.2 p { slot with state := .full } ∧
      ∀ q ≠ p, (s.g.keySlots q).state = .full → (s.g.keySlots q).attr.id ≠ slot.attr.id := by
    unfold FillingOk at hfilling
    split at hfilling
    · have hused := h.used (p := p) (by simp [hp])
      exact ⟨.inl hfilling, fun q hqp hq heq => hqp
        (hused.unique (h.used (by simp [hq])) hfilling heq.symm).symm⟩
    · next hvolatile =>
      obtain ⟨hnone, hkey⟩ := hstored hvolatile
      exact ⟨.inr ⟨hfilling, _, hkey, .inl rfl⟩,
        fun q _ hq => hk.absent hfilling.1 hnone hq⟩
  refine ⟨⟨p, hkept⟩, hkept.keys hk ?_ ?_ ?_, fun hs => ?_, fun q hq => ?_, hits'⟩
  · dsimp only
    rw [hself]
    exact fun hs => by cases hs
  · dsimp only
    rw [hself]
    exact fun _ => hfull
  · rintro q _ hq ⟨attr, heq, hattr⟩
    exact ⟨attr, (hsame q hq).trans heq, hattr⟩
  · exact absurd (hstatus.symm.trans hs) (by simp)
  · by_cases hqp : q = p
    · subst hqp
      refine .inr ⟨hstatus, ?_, .inl ⟨env, rfl⟩⟩
      dsimp only
      rw [hself]
    · rw [(hkept.other q hqp).1] at hq ⊢
      exact .inl ⟨hq, rfl⟩

theorem StoreOk.destroy_step (h : StoreOk cfg s) (hk : KeysOk cfg scfg s its)
    (hp : 0 < s.held p) (env : DestroyEnv) :
    let r := psaDestroyKey cfg s.g env its p
    StepOk cfg scfg ⟨s, its⟩ ⟨⟨r.2.1, update s.held p (s.held p - 1)⟩, r.2.2⟩ (.destroy env p)
      ⟨r.1, some p, (s.g.keySlots p).attr.id⟩ := by
  intro r
  obtain ⟨g', hquiet, heq | ⟨hfull, hempty, heq⟩⟩ := h.destroy hp env its
  · simp only [r, heq]
    exact hquiet.step hk fun hs => by cases hs
  set key := (s.g.keySlots p).attr.id with hkey
  have hd : r.2.1 = g' ∧ r.1 ≠ .errorCorruptionDetected ∧
      (∀ u ≠ psaItsIdentifierOfSlot key, r.2.2 u = its u) ∧
      (r.2.2 (psaItsIdentifierOfSlot key) = its (psaItsIdentifierOfSlot key) ∨
        r.2.2 (psaItsIdentifierOfSlot key) = none) := by
    simp only [r, heq, true_and]
    split_ifs
    · simp
    · simp
    · exact ⟨psaDestroyPersistentKey_ne env key, psaDestroyPersistentKey_other,
        psaDestroyPersistentKey_self env key⟩
  obtain ⟨hg, hne, hother, hself⟩ := hd
  rw [hg]
  refine ⟨⟨p, hquiet.toKept⟩, hquiet.keys hk fun q hq' hq => ?_, fun hs => absurd hs hne,
    fun q hq => ?_, fun key' => ?_⟩
  · -- No other slot holds the key.
    refine storedKey_congr (hother _ fun huid => hempty ?_)
    have hqp := hk.unique q p hq hfull (psaItsIdentifierOfSlot_injective huid)
    rwa [hqp] at hq'
  · obtain ⟨hold, hattr⟩ := hquiet.full_of hq
    exact .inl ⟨hold, congrArg PsaKeyAttributes.id hattr⟩
  · by_cases hkey' : key' = key
    · rw [hkey']
      exact hself.imp_right fun hnone => .inl ⟨hnone, env, p, rfl, rfl⟩
    · exact .inl (hother _ fun huid => hkey' (psaItsIdentifierOfSlot_injective huid))

theorem StepOk.of_step {σ σ' : System} (h : StoreOk cfg σ.store)
    (hk : KeysOk cfg scfg σ.store σ.its) (hstep : keyMachine cfg scfg σ a = some (σ', o)) :
    StepOk cfg scfg σ σ' a o := by
  obtain ⟨s, its⟩ := σ
  cases a with
  | lock env calloc key =>
    cases hstep
    exact h.lock_step hk env calloc key
  | unlock p =>
    simp only [keyMachine] at hstep
    split at hstep
    · next hheld =>
      obtain ⟨g', heq, hquiet⟩ := h.unregister hheld
      rw [heq] at hstep
      cases hstep
      exact hquiet.step hk fun hs => by cases hs
    · cases hstep
  | start calloc attributes =>
    cases hstep
    obtain ⟨hne, heq | ⟨p, hkept, hfilling, hok⟩⟩ := h.start calloc attributes
    · rw [heq]
      exact (h.quiet (p := ⟨0, 0⟩)).step hk fun hs => absurd hs hne
    · have hempty : ¬ ((psaStartKeyCreation cfg s.g calloc attributes).g.keySlots p).state =
          .full := by simp [hfilling]
      refine ⟨⟨p, hkept⟩, hkept.keys hk (fun _ => hok) (fun hs => absurd hs hempty)
        (fun _ _ _ => id), fun hs => absurd hs hne, fun q hq => ?_, fun _ => .inl rfl⟩
      have hqp : q ≠ p := by
        rintro rfl
        exact hempty hq
      rw [(hkept.other q hqp).1] at hq ⊢
      exact .inl ⟨hq, rfl⟩
  | fill p type bits key =>
    simp only [keyMachine] at hstep
    split at hstep
    · next hfilling =>
      cases hstep
      have hkept := h.write_filling { s.g.keySlots p with
        attr := { (s.g.keySlots p).attr with type := type, bits := bits }, key := key }
        hfilling (.inl hfilling) rfl rfl (.inl rfl)
      refine Quiet.step (p := p) ⟨hkept, ?_, ?_⟩ hk fun hs => by cases hs
      all_goals simp [PsaGlobalData.setSlot, hfilling]
    · cases hstep
  | finish env p =>
    simp only [keyMachine] at hstep
    split at hstep
    · next hfilling =>
      cases hstep
      exact h.finish_step hk hfilling env
    · cases hstep
  | fail p =>
    simp only [keyMachine] at hstep
    split at hstep
    · next hfilling =>
      obtain ⟨g', heq, _, hquiet⟩ := h.fail hfilling
      rw [heq] at hstep
      cases hstep
      exact hquiet.step hk fun hs => by cases hs
    · cases hstep
  | destroy env p =>
    simp only [keyMachine] at hstep
    split at hstep
    · next hheld =>
      cases hstep
      exact h.destroy_step hk hheld env
    · cases hstep
  | purge key =>
    cases hstep
    obtain ⟨p, hquiet, hsound⟩ := h.purge key
    exact hquiet.step hk fun hs => .inr (hsound hs)

def SystemOk (cfg : Config) (scfg : StorageConfig) (σ : System) : Prop :=
  StoreOk cfg σ.store ∧ KeysOk cfg scfg σ.store σ.its

theorem systemOk_init (cfg : Config) (scfg : StorageConfig) (its : Its) :
    SystemOk cfg scfg (.init cfg its) :=
  ⟨⟨fun _ => volatileOk_init cfg, fun _ => ⟨rfl, rfl, .inr rfl⟩,
      fun _ hw => absurd hw List.not_mem_nil⟩,
    ⟨fun _ hs => (by cases hs), fun _ hs => (by cases hs), fun _ _ hs => (by cases hs)⟩⟩

theorem SystemOk.step {σ σ' : System} (h : SystemOk cfg scfg σ)
    (hstep : keyMachine cfg scfg σ a = some (σ', o)) : SystemOk cfg scfg σ' :=
  have hs := StepOk.of_step h.1 h.2 hstep
  ⟨hs.kept.choose_spec.ok, hs.keys⟩

theorem SystemOk.run {σ : System} {tr : List (KeyCall × KeyResult)}
    (hrun : Machine.Run (keyMachine cfg scfg) (.init cfg its) tr σ) : SystemOk cfg scfg σ :=
  hrun.state_invariant (systemOk_init cfg scfg its) fun _ _ _ _ => SystemOk.step

/-! ## The key store in every run -/

/-- The readers of a slot are the registrations of its users, a slot in use by one has a key, and
no slot is wiped in vain. No call changes the key before the last of them unregisters, and none
finds a corruption unless the storage does or readers cannot be counted. -/
theorem registered_keys (cfg : Config) (scfg : StorageConfig) (its : Its)
    (tr : List (KeyCall × KeyResult)) (σ : System)
    (hrun : Machine.Run (keyMachine cfg scfg) (.init cfg its) tr σ) :
    let g := σ.store.g
    (∀ p, (g.keySlots p).state = .full ∨ (g.keySlots p).state = .pendingDeletion →
      (g.keySlots p).registeredReaders = σ.store.held p) ∧
    (∀ p, (g.keySlots p).state = .pendingDeletion → 0 < σ.store.held p) ∧
    (∀ p, 0 < σ.store.held p →
      (g.keySlots p).state = .full ∨ (g.keySlots p).state = .pendingDeletion) ∧
    (∀ w ∈ g.wiped, w.status = .success) ∧
    (∀ (a : KeyCall) (σ' : System) (o : KeyResult), keyMachine cfg scfg σ a = some (σ', o) →
      (∀ p, 0 < σ.store.held p → 0 < σ'.store.held p →
        (σ'.store.g.keySlots p).attr = (g.keySlots p).attr ∧
        (σ'.store.g.keySlots p).key = (g.keySlots p).key) ∧
      (o.status = .errorCorruptionDetected →
        Corrupted scfg σ.its a ∨ ∃ p, cfg.sizeMod - 1 ≤ σ.store.held p)) := by
  have h := SystemOk.run hrun
  refine ⟨fun p => h.1.held_eq, fun p hp => ?_, fun p => h.1.locked, h.1.wiped,
    fun a σ' o hstep => ?_⟩
  · have hslot := h.1.slot p
    rw [SlotOk, hp] at hslot
    exact hslot.2.1
  obtain ⟨⟨q, hk⟩, _, hsound, _, _⟩ := StepOk.of_step h.1 h.2 hstep
  refine ⟨fun p hheld hheld' => ?_, hsound⟩
  by_cases hp : p = q
  · subst hp
    exact hk.key hheld hheld'
  · rw [(hk.other p hp).1]
    exact ⟨rfl, rfl⟩

/-- A volatile key is created and locked. -/
theorem registered_keys_witness :
    ∃ σ : System, 0 < σ.store.held ⟨0, 0⟩ ∧
      (σ.store.g.keySlots ⟨0, 0⟩).registeredReaders = σ.store.held ⟨0, 0⟩ := by
  have hnil : Machine.Run (keyMachine .small .default) (.init .small fun _ => none) [] _ := .nil
  have hrun := ((hnil.snoc (a := .start true psaKeyAttributesInit) rfl).snoc
    (a := .finish {} ⟨0, 0⟩) rfl).snoc (a := .lock {} true 0x40000000) rfl
  have hkeys := registered_keys .small .default _ _ _ hrun
  exact ⟨_, by decide +kernel, hkeys.1 _ (.inl (by decide +kernel))⟩

/-- The slice of a volatile key is allocated. -/
theorem StoreOk.getVolatileKeySlot (h : StoreOk cfg s) (hp : (s.g.keySlots p).state ≠ .empty)
    (hv : cfg.psaKeyIdIsVolatile (s.g.keySlots p).attr.id = true) :
    getVolatileKeySlot cfg s.g (s.g.keySlots p).attr.id = some p := by
  have hfound := (h.used hp).id hv
  have hany := hfound { PsaGlobalData.init cfg with keySlices := fun _ => true } rfl
  cases hdyn : cfg.dynamic with
  | false =>
    unfold KeyStore.getVolatileKeySlot at hany ⊢
    rw [hdyn] at hany ⊢
    exact hany
  | true =>
    have hslice : p.slice < keySlotVolatileSliceCount := by
      unfold KeyStore.getVolatileKeySlot at hany
      rw [hdyn, if_pos rfl] at hany
      dsimp only at hany
      split_ifs at hany
      have hslice := congrArg SlotPtr.slice (Option.some.inj hany)
      dsimp only at hslice
      omega
    exact hfound s.g ((h.lists hdyn).used p hslice hp).2.2

/-- The identifier of a key leads to its slot. -/
theorem SystemOk.lockInMemory {σ : System} (h : SystemOk cfg scfg σ)
    (hp : (σ.store.g.keySlots p).state = .full) (hheld : σ.store.held p < cfg.sizeMod - 1) :
    (psaGetAndLockKeySlotInMemory cfg σ.store.g (σ.store.g.keySlots p).attr.id).slot = some p := by
  have hread := (h.1.register hp).resolve_left fun hmax => absurd hheld (Nat.not_lt.mpr hmax.1)
  unfold psaGetAndLockKeySlotInMemory
  dsimp only
  by_cases hv : cfg.psaKeyIdIsVolatile (σ.store.g.keySlots p).attr.id = true
  · rw [if_pos hv, h.1.getVolatileKeySlot (by simp [hp]) hv]
    simp [hp, hread, PsaGlobalData.returns]
  obtain ⟨⟨huser, i, hi, hcache⟩, _⟩ := (h.2.full p hp).resolve_left hv
  rw [if_neg hv, if_pos (.inl huser)]
  split
  · next j hfind =>
    have hj := List.find?_some hfind
    rw [decide_eq_true_eq] at hj
    obtain ⟨hfull, hid⟩ := hj
    rw [← h.2.unique p _ hp hfull hid, hread]
    simp [PsaGlobalData.returns]
  · next hnone =>
    have hmiss := List.find?_eq_none.mp hnone i (List.mem_range.mpr hi)
    rw [← hcache] at hmiss
    exact absurd (decide_eq_true ⟨hp, rfl⟩) hmiss

/-- Who asks for a key gets a slot with this key. -/
theorem SystemOk.lock {σ : System} (h : SystemOk cfg scfg σ) {env : LoadEnv} {calloc : Bool}
    (hslot : (psaGetAndLockKeySlot cfg σ.store.g
      (psaLoadPersistentKeyIntoSlot scfg env calloc σ.its) key).slot = some p) :
    let g := (psaGetAndLockKeySlot cfg σ.store.g
      (psaLoadPersistentKeyIntoSlot scfg env calloc σ.its) key).g
    (g.keySlots p).state = .full ∧ (g.keySlots p).attr.id = key := by
  have hload := loadOk scfg σ.its env calloc
  rcases h.1.getAndLock hload key with ⟨hslot', _⟩ | ⟨q, _, hslot', hfull, hid, _⟩ |
    ⟨q, slot, _, hslot', hfull, hid, _, _, _, hattr, _, _⟩
  · cases hslot'.symm.trans hslot
  · cases Option.some.inj (hslot'.symm.trans hslot)
    exact ⟨hfull, hid⟩
  · cases Option.some.inj (hslot'.symm.trans hslot)
    refine ⟨hfull, ?_⟩
    rw [hattr]
    exact (hload slot).2.2.2.1.trans hid

/-- No slot has the key, and a persistent one is not in the storage. -/
structure Gone (key : PsaKeyId) (σ : System) : Prop where
  slot : ∀ p, (σ.store.g.keySlots p).state = .full → (σ.store.g.keySlots p).attr.id ≠ key
  its : psaKeyIdIsUser key = true → σ.its (psaItsIdentifierOfSlot key) = none

/-- A key that is gone comes back only where it is created again. -/
theorem Gone.step {σ σ' : System} (h : Gone key σ) (hs : StepOk cfg scfg σ σ' a o)
    (hcreate : ∀ env p, a = .finish env p → o.id = key →
      o.status ≠ .success ∧ env.remove = none) : Gone key σ' := by
  have hfinish : ∀ env p, a = .finish env p → o.id = key →
      ¬ (o.status = .success ∨ env.remove ≠ none) := by
    rintro env p ha hid (hstatus | hremove)
    · exact (hcreate env p ha hid).1 hstatus
    · exact hremove (hcreate env p ha hid).2
  refine ⟨fun q hq hid => ?_, fun huser => ?_⟩
  · rcases hs.full q hq with ⟨hold, hid'⟩ | ⟨hstatus, hid', ⟨env, ha⟩ | hstored⟩
    · exact h.slot q hold (hid'.symm.trans hid)
    · exact hfinish env q ha (hid'.trans hid) (.inl hstatus)
    · rw [hid'.trans hid] at hstored
      exact hstored.2 (by simp [storedKey, h.its hstored.1])
  · rcases hs.its key with heq | ⟨hnone, _⟩ | ⟨_, _, env, p, ha, hid, hstatus⟩
    · exact heq.trans (h.its huser)
    · exact hnone
    · exact absurd hstatus (hfinish env p ha hid)

/-- A stored key is not marked as volatile, as long as none is to begin with. -/
theorem StoredPersistent.step {σ σ' : System} (h : StoredPersistent scfg σ.its key)
    (hs : StepOk cfg scfg σ σ' a o) : StoredPersistent scfg σ'.its key := by
  rcases hs.its key with heq | ⟨hnone, _⟩ | ⟨_, hpersistent, _⟩
  · unfold StoredPersistent
    rw [storedKey_congr heq]
    exact h
  · intro attr data hstored
    simp [storedKey, hnone] at hstored
  · exact hpersistent

end TfPsaCrypto.KeyStore
