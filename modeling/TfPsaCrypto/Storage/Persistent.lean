import TfPsaCrypto.Storage.Format

/-!
# Persistent keys over internal trusted storage

`psa_crypto_storage.c` over an ITS layer that is an atomic map from identifiers to byte strings.
Every ITS call may fail and then leaves the map as it was.
-/

namespace TfPsaCrypto

open Bytes

/-! ## The ITS layer -/

abbrev PsaStorageUid := BitVec 64

abbrev Its := PsaStorageUid → Option ByteString

structure ItsFault where
  status : PsaStatus
  ne_success : status ≠ .success
  ne_doesNotExist : status ≠ .errorDoesNotExist

structure PsaStorageInfo where
  status : PsaStatus
  size : Nat
  deriving DecidableEq, Repr

def psaItsGetInfo (fault : Option ItsFault) (its : Its) (uid : PsaStorageUid) :
    PsaStorageInfo :=
  match fault, its uid with
  | some e, _ => { status := e.status, size := 0 }
  | none, none => { status := .errorDoesNotExist, size := 0 }
  | none, some file => { status := .success, size := file.length }

/-- `psa_its_get` from offset 0: the status and the bytes read, `dataLength` of them on success. -/
def psaItsGet (fault : Option ItsFault) (its : Its) (uid : PsaStorageUid)
    (dataLength : Nat) : PsaStatus × ByteString :=
  match fault, its uid with
  | some e, _ => (e.status, [])
  | none, none => (.errorDoesNotExist, [])
  | none, some file =>
    if dataLength > file.length then (.errorInvalidArgument, [])
    else (.success, file.take dataLength)

def psaItsSet (fault : Option ItsFault) (its : Its) (uid : PsaStorageUid)
    (dataLength : Nat) (data : ByteString) : PsaStatus × Its :=
  match fault with
  | some e => (e.status, its)
  | none => (.success, Function.update its uid (some (data.take dataLength)))

def psaItsRemove (fault : Option ItsFault) (its : Its) (uid : PsaStorageUid) :
    PsaStatus × Its :=
  match fault, its uid with
  | some e, _ => (e.status, its)
  | none, none => (.errorDoesNotExist, its)
  | none, some _ => (.success, Function.update its uid none)

def psaItsIdentifierOfSlot (key : PsaKeyId) : PsaStorageUid := key.setWidth 64

theorem psaItsGetInfo_doesNotExist_iff (fault : Option ItsFault) (its : Its)
    (uid : PsaStorageUid) :
    (psaItsGetInfo fault its uid).status = .errorDoesNotExist ↔ fault = none ∧ its uid = none := by
  cases fault with
  | some e => simpa [psaItsGetInfo] using e.ne_doesNotExist
  | none => cases hfile : its uid <;> simp [psaItsGetInfo, hfile]

theorem psaItsRemove_absent (its : Its) (uid : PsaStorageUid) :
    (psaItsRemove none its uid).2 = Function.update its uid none := by
  cases hfile : its uid with
  | none => simp [psaItsRemove, hfile]
  | some file => simp [psaItsRemove, hfile]

/-! ## Saving, loading and destroying a persistent key -/

def psaIsKeyPresentInStorage (fault : Option ItsFault) (its : Its)
    (key : PsaKeyId) : Bool :=
  (psaItsGetInfo fault its (psaItsIdentifierOfSlot key)).status ≠ .errorDoesNotExist

/-- The outcomes of the platform calls made by `psa_save_persistent_key`. -/
structure SaveEnv where
  calloc : Bool := true
  existsInfo : Option ItsFault := none
  set : Option ItsFault := none
  verifyInfo : Option ItsFault := none
  remove : Option ItsFault := none

/-- The outcomes of the platform calls made by `psa_load_persistent_key`. -/
structure LoadEnv where
  lengthInfo : Option ItsFault := none
  callocFile : Bool := true
  loadInfo : Option ItsFault := none
  get : Option ItsFault := none
  callocKey : Bool := true

/-- The outcomes of the platform calls made by `psa_destroy_persistent_key`. -/
structure DestroyEnv where
  info : Option ItsFault := none
  remove : Option ItsFault := none
  verifyInfo : Option ItsFault := none

/-- `psa_crypto_storage_store`. Lengths are passed to the ITS layer as
`uint32_t`. -/
def psaCryptoStorageStore (env : SaveEnv) (its : Its) (key : PsaKeyId)
    (data : ByteString) : PsaStatus × Its :=
  let uid := psaItsIdentifierOfSlot key
  if psaIsKeyPresentInStorage env.existsInfo its key then
    (.errorAlreadyExists, its)
  else
    let set := psaItsSet env.set its uid (data.length % 2 ^ 32) data
    if set.1 ≠ .success then
      (.errorDataInvalid, set.2)
    else
      let info := psaItsGetInfo env.verifyInfo set.2 uid
      let status :=
        if info.status ≠ .success then info.status
        else if info.size ≠ data.length then .errorDataInvalid
        else .success
      if status ≠ .success then
        (status, (psaItsRemove env.remove set.2 uid).2)
      else
        (status, set.2)

/-- `psa_save_persistent_key`. The empty byte string stands for a null or
zero-length buffer. -/
def psaSavePersistentKey (cfg : StorageConfig) (env : SaveEnv) (its : Its)
    (attr : PsaKeyAttributes) (data : ByteString) : PsaStatus × Its :=
  if data.length = 0 then
    (.errorInvalidArgument, its)
  else if data.length > cfg.psaCryptoMaxStorageSize then
    (.errorInsufficientStorage, its)
  else if env.calloc = false then
    (.errorInsufficientMemory, its)
  else
    psaCryptoStorageStore env its attr.id (psaFormatKeyDataForStorage data attr)

def psaCryptoStorageLoad (env : LoadEnv) (its : Its) (key : PsaKeyId)
    (dataSize : Nat) : PsaStatus × ByteString :=
  let uid := psaItsIdentifierOfSlot key
  let info := psaItsGetInfo env.loadInfo its uid
  if info.status ≠ .success then
    (info.status, [])
  else
    let get := psaItsGet env.get its uid (dataSize % 2 ^ 32)
    if dataSize ≠ get.2.length then (.errorDataInvalid, get.2) else get

/-- `psa_load_persistent_key` of `attr.id`, with the output parameters, `keyData` null on entry. -/
def psaLoadPersistentKey (cfg : StorageConfig) (env : LoadEnv) (its : Its)
    (attr : PsaKeyAttributes) : ParsedKey :=
  let out : ParsedKey :=
    { status := .success, keyData := none, keyDataLength := 0, attr := attr }
  let info := psaItsGetInfo env.lengthInfo its (psaItsIdentifierOfSlot attr.id)
  if info.status ≠ .success then
    { out with status := info.status }
  else if env.callocFile = false then
    { out with status := .errorInsufficientMemory }
  else
    let load := psaCryptoStorageLoad env its attr.id info.size
    if load.1 ≠ .success then
      { out with status := load.1 }
    else
      let r := psaParseKeyDataFromStorage cfg env.callocKey load.2 out
      if r.status = .success ∧ (r.keyData = none ∨ r.keyDataLength = 0) then
        { r with status := .errorStorageFailure }
      else
        r

def psaDestroyPersistentKey (env : DestroyEnv) (its : Its) (key : PsaKeyId) :
    PsaStatus × Its :=
  let uid := psaItsIdentifierOfSlot key
  if (psaItsGetInfo env.info its uid).status = .errorDoesNotExist then
    (.success, its)
  else
    let remove := psaItsRemove env.remove its uid
    if remove.1 ≠ .success then
      (.errorDataInvalid, remove.2)
    else if (psaItsGetInfo env.verifyInfo remove.2 uid).status
        ≠ .errorDoesNotExist then
      (.errorDataInvalid, remove.2)
    else
      (.success, remove.2)

/-! ## The abstract store

What storage is for: a partial map from key identifiers to attributes and key
material. -/

/-- The key stored under `key`, if the file parses as one. -/
def storedKey (cfg : StorageConfig) (its : Its) (key : PsaKeyId) :
    Option (PsaKeyAttributes × ByteString) :=
  match its (psaItsIdentifierOfSlot key) with
  | none => none
  | some file =>
    let r := psaParseKeyDataFromStorage cfg true file
      { status := .success, keyData := none, keyDataLength := 0,
        attr := { psaKeyAttributesInit with id := key } }
    if r.status = .success then r.keyData.map (r.attr, ·) else none

theorem storedKey_format {cfg : StorageConfig} {its : Its} {data : ByteString}
    {attr : PsaKeyAttributes} (hpos : 0 < data.length)
    (hmax : data.length ≤ cfg.psaCryptoMaxStorageSize)
    (h : its (psaItsIdentifierOfSlot attr.id) = some (psaFormatKeyDataForStorage data attr)) :
    storedKey cfg its attr.id = some (attr, data) := by
  simp only [storedKey, h, parse_format cfg attr _ hpos hmax, if_true, Option.map_some]

/-! ## What saving does -/

theorem psaCryptoStorageStore_cases (env : SaveEnv) (its : Its) (key : PsaKeyId)
    {data : ByteString} (hlen : data.length < 2 ^ 32) :
    let uid := psaItsIdentifierOfSlot key
    let r := psaCryptoStorageStore env its key data
    (r = (.errorAlreadyExists, its) ∧ (env.existsInfo ≠ none ∨ its uid ≠ none)) ∨
      (its uid = none ∧ r = (.success, Function.update its uid (some data))) ∨
      (its uid = none ∧ r.1 ≠ .success ∧ (r.2 = its ∨
        env.remove ≠ none ∧ r.2 = Function.update its uid (some data))) := by
  intro uid r
  subst r
  unfold psaCryptoStorageStore
  by_cases hpresent : psaIsKeyPresentInStorage env.existsInfo its key = true
  · rw [if_pos hpresent]
    refine .inl ⟨rfl, ?_⟩
    by_contra hnot
    rw [not_or, not_not, not_not] at hnot
    have hdne := (psaItsGetInfo_doesNotExist_iff env.existsInfo its uid).mpr hnot
    simp [psaIsKeyPresentInStorage, uid, hdne] at hpresent
  rw [if_neg hpresent]
  have habsent : its uid = none := by
    have hdne : (psaItsGetInfo env.existsInfo its uid).status
        = .errorDoesNotExist := by
      simpa [psaIsKeyPresentInStorage] using hpresent
    exact ((psaItsGetInfo_doesNotExist_iff _ _ _).mp hdne).2
  rw [Nat.mod_eq_of_lt hlen]
  cases hset : env.set with
  | some e =>
    refine .inr (.inr ⟨habsent, ?_⟩)
    simp [psaItsSet, e.ne_success]
  | none =>
    have hupd : Function.update (Function.update its uid (some data)) uid none
        = its := by
      rw [Function.update_idem, ← habsent, Function.update_eq_self]
    cases hverify : env.verifyInfo with
    | some e =>
      refine .inr (.inr ⟨habsent, ?_⟩)
      cases hremove : env.remove with
      | some e' =>
        simp [psaItsSet, psaItsGetInfo, psaItsRemove, e.ne_success, uid]
      | none =>
        simp [psaItsSet, psaItsGetInfo, e.ne_success, psaItsRemove_absent, uid] at hupd ⊢
        exact hupd
    | none =>
      refine .inr (.inl ⟨habsent, ?_⟩)
      simp [psaItsSet, psaItsGetInfo, uid]

section Save

variable {cfg : StorageConfig} {env : SaveEnv} {its : Its}
  {attr : PsaKeyAttributes} {data : ByteString}

theorem length_format_lt (attr : PsaKeyAttributes)
    (hmax : data.length ≤ cfg.psaCryptoMaxStorageSize) :
    (psaFormatKeyDataForStorage data attr).length < 2 ^ 32 := by
  have := cfg.fits
  rw [length_format, sizeofStorageFormat]
  omega

end Save

/-! ## What loading and destroying do -/

theorem psaParseKeyDataFromStorage_calloc {cfg : StorageConfig} {calloc : Bool}
    {file : ByteString} {out : ParsedKey}
    (h : (psaParseKeyDataFromStorage cfg calloc file out).status = .success) :
    psaParseKeyDataFromStorage cfg true file out
      = psaParseKeyDataFromStorage cfg calloc file out := by
  cases calloc with
  | true => rfl
  | false =>
    unfold psaParseKeyDataFromStorage at h ⊢
    grind

theorem psaParseKeyDataFromStorage_out {cfg : StorageConfig} {file : ByteString}
    (out out' : ParsedKey) (hid : out.attr.id = out'.attr.id)
    (h : (psaParseKeyDataFromStorage cfg true file out).status = .success) :
    psaParseKeyDataFromStorage cfg true file out
      = psaParseKeyDataFromStorage cfg true file out' := by
  unfold psaParseKeyDataFromStorage at h ⊢
  grind

theorem psaItsGetInfo_success {fault : Option ItsFault} {its : Its}
    {uid : PsaStorageUid} (h : (psaItsGetInfo fault its uid).status = .success) :
    ∃ file, its uid = some file ∧ (psaItsGetInfo fault its uid).size = file.length := by
  cases fault with
  | some e => exact absurd h e.ne_success
  | none =>
    cases hfile : its uid with
    | none => simp [psaItsGetInfo, hfile] at h
    | some file => exact ⟨file, rfl, by simp [psaItsGetInfo, hfile]⟩

theorem psaCryptoStorageLoad_success {env : LoadEnv} {its : Its} {key : PsaKeyId}
    {file : ByteString} (hfile : its (psaItsIdentifierOfSlot key) = some file)
    (h : (psaCryptoStorageLoad env its key file.length).1 = .success) :
    (psaCryptoStorageLoad env its key file.length).2 = file := by
  unfold psaCryptoStorageLoad at h ⊢
  by_cases hinfo : (psaItsGetInfo env.loadInfo its (psaItsIdentifierOfSlot key)).status ≠ .success
  · simp [hinfo] at h
  rw [if_neg hinfo] at h ⊢
  cases hget : env.get with
  | some e =>
    simp only [hget, psaItsGet] at h
    split at h
    · cases h
    · exact absurd h e.ne_success
  | none =>
    have hle : ¬ file.length % 2 ^ 32 > file.length := by
      omega
    simp only [hget, psaItsGet, hfile, if_neg hle] at h ⊢
    split at h
    · cases h
    next heq =>
    rw [not_not] at heq
    have hall : (file.take (file.length % 2 ^ 32)).length = file.length := heq.symm
    rw [if_neg (not_not.mpr heq)]
    exact List.take_eq_self_iff _ |>.mpr (by
      rw [List.length_take] at hall
      omega)

section Load

variable {cfg : StorageConfig} {env : LoadEnv} {its : Its}
  {attr : PsaKeyAttributes}

theorem psaLoadPersistentKey_success
    (h : (psaLoadPersistentKey cfg env its attr).status = .success) :
    ∃ data, (psaLoadPersistentKey cfg env its attr).keyData = some data ∧
      storedKey cfg its attr.id = some ((psaLoadPersistentKey cfg env its attr).attr, data) := by
  unfold psaLoadPersistentKey at h ⊢
  by_cases hinfo : (psaItsGetInfo env.lengthInfo its
      (psaItsIdentifierOfSlot attr.id)).status ≠ .success
  · simp [hinfo] at h
  obtain ⟨file, hfile, hsize⟩ := psaItsGetInfo_success (not_not.mp hinfo)
  rw [if_neg hinfo] at h ⊢
  by_cases hmem : env.callocFile = false
  · simp [hmem] at h
  rw [if_neg hmem, hsize] at h ⊢
  by_cases hload : (psaCryptoStorageLoad env its attr.id file.length).1 ≠ .success
  · simp [hload] at h
  rw [if_neg hload, psaCryptoStorageLoad_success hfile (not_not.mp hload)] at h ⊢
  by_cases hnull :
      (psaParseKeyDataFromStorage cfg env.callocKey file
        ⟨.success, none, 0, attr⟩).status = .success ∧
      ((psaParseKeyDataFromStorage cfg env.callocKey file
          ⟨.success, none, 0, attr⟩).keyData = none ∨
        (psaParseKeyDataFromStorage cfg env.callocKey file
          ⟨.success, none, 0, attr⟩).keyDataLength = 0)
  · simp [hnull] at h
  rw [if_neg hnull] at h ⊢
  have hparse := psaParseKeyDataFromStorage_calloc h
  have hsucc := h
  rw [← hparse] at hsucc
  have hsome : (psaParseKeyDataFromStorage cfg env.callocKey file
      ⟨.success, none, 0, attr⟩).keyData ≠ none :=
    fun hnone => hnull ⟨h, .inl hnone⟩
  obtain ⟨data, hdata⟩ := Option.ne_none_iff_exists'.mp hsome
  refine ⟨data, hdata, ?_⟩
  rw [← hparse] at hdata ⊢
  have hswap := psaParseKeyDataFromStorage_out ⟨.success, none, 0, attr⟩
    ⟨.success, none, 0, { psaKeyAttributesInit with id := attr.id }⟩ rfl hsucc
  rw [hswap] at hsucc hdata ⊢
  simp only [storedKey, hfile, hsucc, if_true, hdata, Option.map_some]

end Load

section Destroy

variable {env : DestroyEnv} {its : Its} {key : PsaKeyId}

theorem psaDestroyPersistentKey_other (uid : PsaStorageUid)
    (h : uid ≠ psaItsIdentifierOfSlot key) :
    (psaDestroyPersistentKey env its key).2 uid = its uid := by
  have hremove : ∀ fault, (psaItsRemove fault its
      (psaItsIdentifierOfSlot key)).2 uid = its uid := by
    intro fault
    unfold psaItsRemove
    split
    · rfl
    · rfl
    · exact Function.update_of_ne h _ _
  unfold psaDestroyPersistentKey
  dsimp only
  split
  · rfl
  · split
    · exact hremove _
    · split <;> exact hremove _

end Destroy

/-! ## The contract of the persistent key store -/

end TfPsaCrypto
