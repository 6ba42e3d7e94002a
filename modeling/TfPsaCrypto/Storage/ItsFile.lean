import TfPsaCrypto.Core.Types
import TfPsaCrypto.Library.Bytes

/-!
# Internal trusted storage over files

`psa_its_file.c`: an entry is a file named by its identifier, and an update renames a temporary
file. Every call of the C library may fail, and every read or write may be short.
-/

namespace TfPsaCrypto.ItsFile

open Bytes

/-! ## Files -/

abbrev FileName := List Char

abbrev FileSystem := FileName → Option ByteString

structure Stream where
  name : FileName
  pos : Nat
  deriving DecidableEq, Repr

/-- `fopen` with mode `rb`. -/
def fopenRead (fs : FileSystem) (name : FileName) (works : Bool) : Option Stream :=
  if works && (fs name).isSome then some { name := name, pos := 0 } else none

/-- `fopen` with mode `wb`: the file is created, or emptied. -/
def fopenWrite (fs : FileSystem) (name : FileName) (works : Bool) :
    Option Stream × FileSystem :=
  if works then (some { name := name, pos := 0 }, Function.update fs name (some []))
  else (none, fs)

/-- `fread` of `n` bytes, of which at most `limit` are delivered. -/
def fread (fs : FileSystem) (stream : Stream) (n limit : Nat) : ByteString × Stream :=
  let bytes := (((fs stream.name).getD []).drop stream.pos).take (min n limit)
  (bytes, { stream with pos := stream.pos + bytes.length })

def fseek (stream : Stream) (offset : Nat) (works : Bool) : Option Stream :=
  if works then some { stream with pos := stream.pos + offset } else none

/-- `fwrite` at the end of a file that was opened empty: the number of bytes written. -/
def fwrite (fs : FileSystem) (stream : Stream) (data : ByteString) (limit : Nat) :
    Nat × FileSystem :=
  let written := data.take limit
  (written.length, Function.update fs stream.name (some ((fs stream.name).getD [] ++ written)))

def rename (fs : FileSystem) (oldpath newpath : FileName) (works : Bool) : Bool × FileSystem :=
  match works, fs oldpath with
  | true, some file =>
    (true, Function.update (Function.update fs newpath (some file)) oldpath none)
  | _, _ => (false, fs)

def remove (fs : FileSystem) (name : FileName) (works : Bool) : Bool × FileSystem :=
  if works && (fs name).isSome then (true, Function.update fs name none) else (false, fs)

/-! ## The storage calls -/

abbrev StorageUid := BitVec 64

structure StorageInfo where
  size : Nat
  flags : Nat
  deriving DecidableEq, Repr

def hexDigit (n : Nat) : Char := "0123456789abcdef".toList.getD n '0'

def hexDigits : Nat → Nat → FileName
  | 0, _ => []
  | k + 1, n => hexDigits k (n / 16) ++ [hexDigit (n % 16)]

def psaItsStorageSuffix : FileName := ".psa_its".toList

def psaItsFillFilename (dir : FileName) (uid : StorageUid) : FileName :=
  dir ++ hexDigits 8 (uid >>> 32).toNat ++ hexDigits 8 (uid &&& 0xffffffff).toNat ++
    psaItsStorageSuffix

def psaItsStorageTemp (dir : FileName) : FileName := dir ++ "tempfile".toList ++ psaItsStorageSuffix

def psaItsMagicString : ByteString := [0x50, 0x53, 0x41, 0x00, 0x49, 0x54, 0x53, 0x00]

def sizeofItsFileHeader : Nat := 16

structure ReadFaults where
  fopen : Bool
  header : Nat
  fseek : Bool
  data : Nat

structure SetFaults where
  fopen : Bool
  header : Nat
  data : Nat
  fclose : Bool
  rename : Bool
  remove : Bool

structure RemoveFaults where
  fopen : Bool
  remove : Bool

variable (dir : FileName)

def psaItsReadFile (f : ReadFaults) (fs : FileSystem) (uid : StorageUid) :
    Except PsaStatus (StorageInfo × Stream) :=
  match fopenRead fs (psaItsFillFilename dir uid) f.fopen with
  | none => .error .errorDoesNotExist
  | some stream =>
    let (header, stream) := fread fs stream sizeofItsFileHeader f.header
    if header.length ≠ sizeofItsFileHeader then .error .errorDataCorrupt
    else if slice header 0 8 ≠ psaItsMagicString then .error .errorDataCorrupt
    else .ok ({ size := ofLE (slice header 8 4), flags := ofLE (slice header 12 4) }, stream)

def psaItsGetInfo (f : ReadFaults) (fs : FileSystem) (uid : StorageUid) :
    Except PsaStatus StorageInfo :=
  match psaItsReadFile dir f fs uid with
  | .error e => .error e
  | .ok (info, _) => .ok info

/-- Where `size_t` and `long` hold every 32-bit value. -/
def psaItsGet (f : ReadFaults) (fs : FileSystem) (uid : StorageUid)
    (dataOffset dataLength : UInt32) : Except PsaStatus ByteString :=
  match psaItsReadFile dir f fs uid with
  | .error e => .error e
  | .ok (info, stream) =>
    if dataOffset + dataLength < dataOffset then .error .errorInvalidArgument
    else if (dataOffset + dataLength).toNat > info.size then .error .errorInvalidArgument
    else
      match fseek stream dataOffset.toNat f.fseek with
      | none => .error .errorStorageFailure
      | some stream =>
        let (data, _) := fread fs stream dataLength.toNat f.data
        if data.length ≠ dataLength.toNat then .error .errorStorageFailure else .ok data

/-- The header and the data that `psa_its_set` writes. -/
def itsFileHeader (dataLength createFlags : UInt32) : ByteString :=
  psaItsMagicString ++ toLE 4 dataLength.toNat ++ toLE 4 createFlags.toNat

/-- The writes of `psa_its_set`, up to the close of the temporary file. -/
def writeTemp (f : SetFaults) (fs : FileSystem) (dataLength : UInt32) (pData : ByteString)
    (createFlags : UInt32) : PsaStatus × FileSystem :=
  match fopenWrite fs (psaItsStorageTemp dir) f.fopen with
  | (none, fs) => (.errorStorageFailure, fs)
  | (some stream, fs) =>
    let header := itsFileHeader dataLength createFlags
    let (n, fs) := fwrite fs stream header f.header
    if n ≠ header.length then (.errorInsufficientStorage, fs)
    else
      let (n, fs) :=
        if dataLength ≠ 0 then fwrite fs stream (pData.take dataLength.toNat) f.data
        else (dataLength.toNat, fs)
      if n ≠ dataLength.toNat then (.errorInsufficientStorage, fs)
      else if f.fclose = true then (.success, fs)
      else (.errorInsufficientStorage, fs)

def psaItsSet (f : SetFaults) (fs : FileSystem) (uid : StorageUid) (dataLength : UInt32)
    (pData : ByteString) (createFlags : UInt32) : PsaStatus × FileSystem :=
  if uid = 0 then (.errorInvalidHandle, fs)
  else
    let (status, fs) := writeTemp dir f fs dataLength pData createFlags
    let (status, fs) :=
      if status = .success then
        match rename fs (psaItsStorageTemp dir) (psaItsFillFilename dir uid) f.rename with
        | (true, fs) => (.success, fs)
        | (false, fs) => (.errorStorageFailure, fs)
      else (status, fs)
    (status, (remove fs (psaItsStorageTemp dir) f.remove).2)

def psaItsRemove (f : RemoveFaults) (fs : FileSystem) (uid : StorageUid) :
    PsaStatus × FileSystem :=
  match fopenRead fs (psaItsFillFilename dir uid) f.fopen with
  | none => (.errorDoesNotExist, fs)
  | some _ =>
    match remove fs (psaItsFillFilename dir uid) f.remove with
    | (true, fs) => (.success, fs)
    | (false, fs) => (.errorStorageFailure, fs)

/-! ## Names -/

theorem hexDigit_inj : ∀ m < 16, ∀ n < 16, hexDigit m = hexDigit n → m = n := by
  decide

@[simp] theorem length_hexDigits (k n : Nat) : (hexDigits k n).length = k := by
  induction k generalizing n with
  | zero => rfl
  | succ k ih => rw [hexDigits, List.length_append, ih, List.length_singleton]

theorem hexDigits_inj {k m n : Nat} (hm : m < 16 ^ k) (hn : n < 16 ^ k)
    (h : hexDigits k m = hexDigits k n) : m = n := by
  induction k generalizing m n with
  | zero => omega
  | succ k ih =>
    obtain ⟨hinit, hlast⟩ := List.append_inj' h rfl
    have hdiv := ih (Nat.div_lt_of_lt_mul (by rw [Nat.mul_comm]; exact hm))
      (Nat.div_lt_of_lt_mul (by rw [Nat.mul_comm]; exact hn)) hinit
    have hmod := hexDigit_inj _ (Nat.mod_lt m (by decide)) _ (Nat.mod_lt n (by decide))
      (List.singleton_inj.mp hlast)
    rw [← Nat.div_add_mod m 16, hdiv, hmod, Nat.div_add_mod]

variable {dir}

theorem psaItsFillFilename_inj {uid uid' : StorageUid}
    (h : psaItsFillFilename dir uid = psaItsFillFilename dir uid') : uid = uid' := by
  obtain ⟨h, -⟩ := List.append_inj' h rfl
  obtain ⟨h, hlow⟩ := List.append_inj' h (by rw [length_hexDigits, length_hexDigits])
  obtain ⟨-, hhigh⟩ := List.append_inj' h (by rw [length_hexDigits, length_hexDigits])
  have hmask : ∀ v : StorageUid, (v &&& 0xffffffff).toNat = v.toNat % 2 ^ 32 := fun v =>
    Nat.and_two_pow_sub_one_eq_mod v.toNat 32
  have hshift : ∀ v : StorageUid, (v >>> 32).toNat = v.toNat / 2 ^ 32 := fun v =>
    Nat.shiftRight_eq_div_pow v.toNat 32
  rw [hmask, hmask] at hlow
  rw [hshift, hshift] at hhigh
  have hhigh := hexDigits_inj (by have := uid.isLt; omega) (by have := uid'.isLt; omega) hhigh
  have hlow : uid.toNat % 2 ^ 32 = uid'.toNat % 2 ^ 32 :=
    hexDigits_inj (Nat.mod_lt _ (by decide)) (Nat.mod_lt _ (by decide)) hlow
  refine BitVec.eq_of_toNat_eq ?_
  rw [← Nat.div_add_mod uid.toNat (2 ^ 32), hhigh, hlow, Nat.div_add_mod]

theorem fillFilename_ne_temp (uid : StorageUid) :
    psaItsFillFilename dir uid ≠ psaItsStorageTemp dir := by
  intro h
  have hlength := congrArg List.length h
  simp only [psaItsFillFilename, psaItsStorageTemp, List.length_append, length_hexDigits] at hlength
  have htemp : "tempfile".toList.length = 8 := rfl
  omega

/-! ## Entries -/

variable {f : ReadFaults}

structure ItsEntry where
  data : ByteString
  flags : UInt32
  size_lt : data.length < 2 ^ 32

abbrev Its := StorageUid → Option ItsEntry

def ItsEntry.file (e : ItsEntry) : ByteString :=
  itsFileHeader (UInt32.ofNat e.data.length) e.flags ++ e.data

def Represents (dir : FileName) (fs : FileSystem) (its : Its) : Prop :=
  ∀ uid, fs (psaItsFillFilename dir uid) = (its uid).map ItsEntry.file

variable {fs fs' : FileSystem} {its : Its} {uid : StorageUid}

theorem length_itsFileHeader (n flags : UInt32) :
    (itsFileHeader n flags).length = sizeofItsFileHeader := by
  simp [itsFileHeader, psaItsMagicString, sizeofItsFileHeader]

theorem header_fields (n flags : UInt32) :
    slice (itsFileHeader n flags) 0 8 = psaItsMagicString ∧
      ofLE (slice (itsFileHeader n flags) 8 4) = n.toNat ∧
      ofLE (slice (itsFileHeader n flags) 12 4) = flags.toNat := by
  refine ⟨rfl, ?_, ?_⟩
  · have h : slice (itsFileHeader n flags) 8 4 = toLE 4 n.toNat := rfl
    rw [h, ofLE_toLE_of_lt n.toNat_lt]
  · have h : slice (itsFileHeader n flags) 12 4 = toLE 4 flags.toNat := rfl
    rw [h, ofLE_toLE_of_lt flags.toNat_lt]

theorem ItsEntry.toNat_size (e : ItsEntry) : (UInt32.ofNat e.data.length).toNat = e.data.length :=
  Nat.mod_eq_of_lt e.size_lt

theorem ItsEntry.take_file (e : ItsEntry) :
    e.file.take sizeofItsFileHeader = itsFileHeader (UInt32.ofNat e.data.length) e.flags :=
  List.take_left' (length_itsFileHeader _ _)

theorem ItsEntry.drop_file (e : ItsEntry) : e.file.drop sizeofItsFileHeader = e.data :=
  List.drop_left' (length_itsFileHeader _ _)

variable {e : ItsEntry}

theorem Represents.fread_eq (h : Represents dir fs its) (he : its uid = some e)
    (pos n limit : Nat) :
    (fread fs { name := psaItsFillFilename dir uid, pos := pos } n limit).1 =
      (e.file.drop pos).take (min n limit) := by
  unfold fread
  rw [h uid, he]
  rfl

theorem Represents.fopen_eq (h : Represents dir fs its) (he : its uid = some e) :
    fopenRead fs (psaItsFillFilename dir uid) true =
      some { name := psaItsFillFilename dir uid, pos := 0 } := by
  unfold fopenRead
  rw [h uid, he]
  rfl

theorem Represents.readFile_absent (h : Represents dir fs its)
    (habsent : its uid = none ∨ f.fopen = false) :
    psaItsReadFile dir f fs uid = .error .errorDoesNotExist := by
  have hopen : fopenRead fs (psaItsFillFilename dir uid) f.fopen = none := by
    unfold fopenRead
    rcases habsent with habsent | habsent
    · rw [h uid, habsent]
      simp
    · rw [habsent]
      rfl
  unfold psaItsReadFile
  rw [hopen]

theorem Represents.readFile_eq (h : Represents dir fs its) (he : its uid = some e)
    (hopen : f.fopen = true) :
    psaItsReadFile dir f fs uid =
      if f.header < sizeofItsFileHeader then .error .errorDataCorrupt
      else .ok ({ size := e.data.length, flags := e.flags.toNat },
        { name := psaItsFillFilename dir uid, pos := sizeofItsFileHeader }) := by
  have hread := h.fread_eq he 0 sizeofItsFileHeader f.header
  rw [List.drop_zero] at hread
  unfold psaItsReadFile
  rw [hopen, h.fopen_eq he]
  dsimp only
  by_cases hshort : f.header < sizeofItsFileHeader
  · rw [if_pos hshort, if_pos]
    rw [hread, List.length_take]
    omega
  rw [Nat.min_eq_left (Nat.not_lt.mp hshort), e.take_file] at hread
  obtain ⟨hmagic, hsize, hflags⟩ := header_fields (UInt32.ofNat e.data.length) e.flags
  have hstream : (fread fs { name := psaItsFillFilename dir uid, pos := 0 } sizeofItsFileHeader
      f.header).2 = { name := psaItsFillFilename dir uid, pos := sizeofItsFileHeader } := by
    have hpos : (fread fs { name := psaItsFillFilename dir uid, pos := 0 } sizeofItsFileHeader
        f.header).2 = { name := psaItsFillFilename dir uid, pos := 0 + (fread fs
          { name := psaItsFillFilename dir uid, pos := 0 } sizeofItsFileHeader
          f.header).1.length } := rfl
    rw [hpos, hread, length_itsFileHeader]
    rfl
  rw [hread, hstream, if_neg (not_not_intro (length_itsFileHeader _ _)),
    if_neg (not_not_intro hmagic), if_neg hshort, hsize, hflags, e.toNat_size]

/-! ## The calls on entries -/

theorem Represents.get_eq (h : Represents dir fs its) (he : its uid = some e)
    (hopen : f.fopen = true) (hheader : sizeofItsFileHeader ≤ f.header)
    (dataOffset dataLength : UInt32) :
    psaItsGet dir f fs uid dataOffset dataLength =
      if e.data.length < dataOffset.toNat + dataLength.toNat then .error .errorInvalidArgument
      else if f.fseek = false ∨ f.data < dataLength.toNat then .error .errorStorageFailure
      else .ok (slice e.data dataOffset.toNat dataLength.toNat) := by
  have hsize := e.size_lt
  unfold psaItsGet
  rw [h.readFile_eq he hopen, if_neg (Nat.not_lt.mpr hheader)]
  dsimp only
  have hsum : (dataOffset + dataLength).toNat =
      (dataOffset.toNat + dataLength.toNat) % 2 ^ 32 := UInt32.toNat_add _ _
  have hlen := dataLength.toNat_lt
  by_cases hbig : e.data.length < dataOffset.toNat + dataLength.toNat
  · rw [if_pos hbig]
    -- a sum that wraps around is less than each of its terms
    by_cases hwrap : dataOffset + dataLength < dataOffset
    · rw [if_pos hwrap]
    have hle : dataOffset.toNat ≤ (dataOffset + dataLength).toNat :=
      Nat.not_lt.mp fun hlt => hwrap (UInt32.lt_iff_toNat_lt.mpr hlt)
    rw [if_neg hwrap, if_pos]
    rw [hsum] at hle ⊢
    omega
  · have hexact : (dataOffset + dataLength).toNat = dataOffset.toNat + dataLength.toNat := by
      rw [hsum]
      exact Nat.mod_eq_of_lt (by omega)
    have hwrap : ¬ dataOffset + dataLength < dataOffset := fun hlt => by
      have hlt := UInt32.lt_iff_toNat_lt.mp hlt
      omega
    rw [if_neg hbig, if_neg hwrap, if_neg (by omega)]
    cases hseek : f.fseek with
    | false => simp [fseek]
    | true =>
      have hread := h.fread_eq he (sizeofItsFileHeader + dataOffset.toNat) dataLength.toNat f.data
      rw [← List.drop_drop, e.drop_file] at hread
      dsimp only [fseek]
      rw [if_pos rfl]
      dsimp only
      by_cases hshort : f.data < dataLength.toNat
      · rw [if_pos (by rw [hread, List.length_take]; omega), if_pos (.inr hshort)]
      rw [Nat.min_eq_left (Nat.not_lt.mp hshort)] at hread
      have hslice : (fread fs { name := psaItsFillFilename dir uid
                                pos := sizeofItsFileHeader + dataOffset.toNat }
          dataLength.toNat f.data).1 = slice e.data dataOffset.toNat dataLength.toNat := hread
      rw [hslice, if_neg (by rw [length_slice]; omega), if_neg (by simpa using hshort)]

theorem Represents.getInfo_eq (h : Represents dir fs its) (he : its uid = some e)
    (hopen : f.fopen = true) :
    psaItsGetInfo dir f fs uid =
      if f.header < sizeofItsFileHeader then .error .errorDataCorrupt
      else .ok { size := e.data.length, flags := e.flags.toNat } := by
  unfold psaItsGetInfo
  rw [h.readFile_eq he hopen]
  by_cases hshort : f.header < sizeofItsFileHeader
  · rw [if_pos hshort, if_pos hshort]
  · rw [if_neg hshort, if_neg hshort]

theorem writeTemp_of_ne (f : SetFaults) (fs : FileSystem) (n : UInt32) (pData : ByteString)
    (flags : UInt32) {name : FileName} (hname : name ≠ psaItsStorageTemp dir) :
    (writeTemp dir f fs n pData flags).2 name = fs name := by
  have hfwrite : ∀ fs data limit,
      (fwrite fs { name := psaItsStorageTemp dir, pos := 0 } data limit).2 name = fs name :=
    fun _ _ _ => Function.update_of_ne hname _ _
  unfold writeTemp fopenWrite
  cases f.fopen with
  | false => rfl
  | true =>
    simp only [if_true]
    split_ifs <;> simp only [hfwrite, Function.update_of_ne hname]

theorem fwrite_all {fs : FileSystem} {stream : Stream} {data old : ByteString} {limit : Nat}
    (hold : fs stream.name = some old) (h : (fwrite fs stream data limit).1 = data.length) :
    (fwrite fs stream data limit).2 stream.name = some (old ++ data) := by
  have hall : data.take limit = data := List.take_of_length_le (by
    have hmin : (data.take limit).length = data.length := h
    rw [List.length_take] at hmin
    omega)
  unfold fwrite
  dsimp only
  rw [Function.update_self, hall, hold]
  rfl

theorem writeTemp_success {f : SetFaults} {fs : FileSystem} {n : UInt32} {pData : ByteString}
    {flags : UInt32} (h : (writeTemp dir f fs n pData flags).1 = .success) :
    (pData.take n.toNat).length = n.toNat ∧
      (writeTemp dir f fs n pData flags).2 (psaItsStorageTemp dir) =
        some (itsFileHeader n flags ++ pData.take n.toNat) := by
  unfold writeTemp at h ⊢
  cases hopen : f.fopen with
  | false =>
    rw [hopen] at h
    cases h
  | true =>
    rw [hopen] at h
    dsimp only [fopenWrite] at h ⊢
    simp only [if_true] at h ⊢
    have hempty : Function.update fs (psaItsStorageTemp dir) (some [])
        (psaItsStorageTemp dir) = some [] := Function.update_self _ _ _
    generalize Function.update fs (psaItsStorageTemp dir) (some []) = fs₁ at h hempty ⊢
    -- a short write of the header, or of the data, is an error
    by_cases hheader : (fwrite fs₁ { name := psaItsStorageTemp dir, pos := 0 }
        (itsFileHeader n flags) f.header).1 = (itsFileHeader n flags).length
    · have hwritten := @fwrite_all _ { name := psaItsStorageTemp dir, pos := 0 } _ _ _
        hempty hheader
      rw [if_neg (not_not_intro hheader)] at h ⊢
      generalize (fwrite fs₁ { name := psaItsStorageTemp dir, pos := 0 }
        (itsFileHeader n flags) f.header).2 = fs₂ at h hwritten ⊢
      rw [List.nil_append] at hwritten
      by_cases hn : n = 0
      · subst hn
        cases hclose : f.fclose with
        | false =>
          rw [hclose] at h
          cases h
        | true => exact ⟨rfl, by simpa using hwritten⟩
      · simp only [ne_eq, hn, not_false_eq_true, if_true] at h ⊢
        by_cases hdata : (fwrite fs₂ { name := psaItsStorageTemp dir, pos := 0 }
            (pData.take n.toNat) f.data).1 = n.toNat
        · have hle : (fwrite fs₂ { name := psaItsStorageTemp dir, pos := 0 }
              (pData.take n.toNat) f.data).1 ≤ (pData.take n.toNat).length :=
            List.length_take_le' _ _
          have hlength : (pData.take n.toNat).length = n.toNat :=
            Nat.le_antisymm (List.length_take_le _ _) (Nat.le_trans (Nat.le_of_eq hdata.symm) hle)
          refine ⟨hlength, ?_⟩
          rw [if_neg (not_not_intro hdata)]
          cases hclose : f.fclose <;>
            exact @fwrite_all _ { name := psaItsStorageTemp dir, pos := 0 } _ _ _
              hwritten (hdata.trans hlength.symm)
        · rw [if_pos hdata] at h
          cases h
    · rw [if_pos hheader] at h
      cases h

theorem remove_of_ne {fs : FileSystem} {name name' : FileName} {works : Bool} (h : name' ≠ name) :
    (remove fs name works).2 name' = fs name' := by
  unfold remove
  split
  · exact Function.update_of_ne h _ _
  · rfl

theorem psaItsSet_spec (f : SetFaults) (fs : FileSystem) (uid : StorageUid) (n : UInt32)
    (pData : ByteString) (flags : UInt32) :
    let r := psaItsSet dir f fs uid n pData flags
    (r.1 ≠ .success ∧ ∀ name, name ≠ psaItsStorageTemp dir → r.2 name = fs name) ∨
      (r.1 = .success ∧ uid ≠ 0 ∧ (pData.take n.toNat).length = n.toNat ∧
        r.2 (psaItsFillFilename dir uid) = some (itsFileHeader n flags ++ pData.take n.toNat) ∧
        ∀ name, name ≠ psaItsStorageTemp dir → name ≠ psaItsFillFilename dir uid →
          r.2 name = fs name) := by
  intro r
  have hr : r = psaItsSet dir f fs uid n pData flags := rfl
  unfold psaItsSet at hr
  by_cases huid : uid = 0
  · rw [if_pos huid] at hr
    rw [hr]
    exact .inl ⟨nofun, fun _ _ => rfl⟩
  rw [if_neg huid] at hr
  have hframe := fun name => @writeTemp_of_ne dir f fs n pData flags name
  have hwrite := @writeTemp_success dir f fs n pData flags
  generalize writeTemp dir f fs n pData flags = w at hr hframe hwrite
  obtain ⟨status, fs₁⟩ := w
  by_cases hstatus : status = .success
  · obtain ⟨hlength, htemp⟩ := hwrite hstatus
    dsimp only at htemp hframe
    simp only [hstatus, if_true] at hr
    unfold rename at hr
    rw [htemp] at hr
    -- the temporary file is removed whether or not it could be renamed
    cases hrename : f.rename with
    | false =>
      rw [hrename] at hr
      rw [hr]
      exact .inl ⟨nofun, fun name hname => (remove_of_ne hname).trans (hframe name hname)⟩
    | true =>
      rw [hrename] at hr
      rw [hr]
      refine .inr ⟨rfl, huid, hlength, ?_, fun name hname hne => ?_⟩
      · rw [remove_of_ne (fillFilename_ne_temp uid)]
        dsimp only
        rw [Function.update_of_ne (fillFilename_ne_temp uid), Function.update_self]
      · rw [remove_of_ne hname]
        dsimp only
        rw [Function.update_of_ne hname, Function.update_of_ne hne, hframe name hname]
  · simp only [hstatus, if_false] at hr
    rw [hr]
    exact .inl ⟨hstatus, fun name hname => (remove_of_ne hname).trans (hframe name hname)⟩

/-! ## Runs -/

inductive ItsCall where
  | set (uid : StorageUid) (dataLength : UInt32) (pData : ByteString) (createFlags : UInt32)
      (f : SetFaults)
  | get (uid : StorageUid) (dataOffset dataLength : UInt32) (f : ReadFaults)
  | getInfo (uid : StorageUid) (f : ReadFaults)
  | remove (uid : StorageUid) (f : RemoveFaults)

inductive ItsResult where
  | status (status : PsaStatus)
  | data (data : Except PsaStatus ByteString)
  | info (info : Except PsaStatus StorageInfo)

def itsStep (dir : FileName) (fs : FileSystem) : ItsCall → FileSystem × ItsResult
  | .set uid dataLength pData createFlags f =>
    let r := psaItsSet dir f fs uid dataLength pData createFlags
    (r.2, .status r.1)
  | .get uid dataOffset dataLength f => (fs, .data (psaItsGet dir f fs uid dataOffset dataLength))
  | .getInfo uid f => (fs, .info (psaItsGetInfo dir f fs uid))
  | .remove uid f =>
    let r := psaItsRemove dir f fs uid
    (r.2, .status r.1)

def SetSpec (its its' : Its) (uid : StorageUid) (dataLength : UInt32) (pData : ByteString)
    (createFlags : UInt32) (status : PsaStatus) : Prop :=
  (status ≠ .success → its' = its) ∧
    (status = .success → ∃ e : ItsEntry, e.data = pData.take dataLength.toNat ∧
      e.data.length = dataLength.toNat ∧ e.flags = createFlags ∧
      its' = Function.update its uid (some e))

/-- A read delivers the bytes that were asked for. It rejects the arguments exactly if they go
beyond the end of an entry whose header was read. -/
def GetSpec (its : Its) (uid : StorageUid) (dataOffset dataLength : UInt32) (f : ReadFaults)
    (r : Except PsaStatus ByteString) : Prop :=
  (∀ out, r = .ok out → ∃ e, its uid = some e ∧
    dataOffset.toNat + dataLength.toNat ≤ e.data.length ∧
    out = slice e.data dataOffset.toNat dataLength.toNat ∧ out.length = dataLength.toNat) ∧
  (r = .error .errorInvalidArgument ↔
    f.fopen = true ∧ sizeofItsFileHeader ≤ f.header ∧
      ∃ e, its uid = some e ∧ e.data.length < dataOffset.toNat + dataLength.toNat) ∧
  (∀ e, its uid = some e → f.fopen = true → sizeofItsFileHeader ≤ f.header → f.fseek = true →
    dataLength.toNat ≤ f.data → dataOffset.toNat + dataLength.toNat ≤ e.data.length →
    r = .ok (slice e.data dataOffset.toNat dataLength.toNat))

def GetInfoSpec (its : Its) (uid : StorageUid) (f : ReadFaults)
    (r : Except PsaStatus StorageInfo) : Prop :=
  (∀ info, r = .ok info → ∃ e, its uid = some e ∧
    info = { size := e.data.length, flags := e.flags.toNat }) ∧
  ∀ e, its uid = some e → f.fopen = true → sizeofItsFileHeader ≤ f.header →
    r = .ok { size := e.data.length, flags := e.flags.toNat }

def RemoveSpec (its its' : Its) (uid : StorageUid) (status : PsaStatus) : Prop :=
  (status ≠ .success → its' = its) ∧
    (status = .success → its uid ≠ none ∧ its' = Function.update its uid none)

inductive ItsMapStep : Its → ItsCall → ItsResult → Its → Prop
  | set {its its' : Its} {uid : StorageUid} {dataLength createFlags : UInt32}
      {pData : ByteString} {f : SetFaults} {status : PsaStatus}
      (h : SetSpec its its' uid dataLength pData createFlags status) :
      ItsMapStep its (.set uid dataLength pData createFlags f) (.status status) its'
  | get {its : Its} {uid : StorageUid} {dataOffset dataLength : UInt32} {f : ReadFaults}
      {r : Except PsaStatus ByteString} (h : GetSpec its uid dataOffset dataLength f r) :
      ItsMapStep its (.get uid dataOffset dataLength f) (.data r) its
  | getInfo {its : Its} {uid : StorageUid} {f : ReadFaults} {r : Except PsaStatus StorageInfo}
      (h : GetInfoSpec its uid f r) : ItsMapStep its (.getInfo uid f) (.info r) its
  | remove {its its' : Its} {uid : StorageUid} {f : RemoveFaults} {status : PsaStatus}
      (h : RemoveSpec its its' uid status) : ItsMapStep its (.remove uid f) (.status status) its'

inductive ItsMapRun (its₀ : Its) : List (ItsCall × ItsResult) → Its → Prop
  | nil : ItsMapRun its₀ [] its₀
  | snoc {trace : List (ItsCall × ItsResult)} {its its' : Its} {call : ItsCall}
      {r : ItsResult} (h : ItsMapRun its₀ trace its) (hs : ItsMapStep its call r its') :
      ItsMapRun its₀ (trace ++ [(call, r)]) its'

def itsRun (dir : FileName) (fs : FileSystem) :
    List ItsCall → FileSystem × List (ItsCall × ItsResult)
  | [] => (fs, [])
  | call :: calls =>
    let r := itsStep dir fs call
    let rest := itsRun dir r.1 calls
    (rest.1, (call, r.2) :: rest.2)

theorem Represents.set (h : Represents dir fs its) (f : SetFaults) (uid : StorageUid)
    (n : UInt32) (pData : ByteString) (flags : UInt32) :
    ∃ its', SetSpec its its' uid n pData flags (psaItsSet dir f fs uid n pData flags).1 ∧
      Represents dir (psaItsSet dir f fs uid n pData flags).2 its' := by
  rcases @psaItsSet_spec dir f fs uid n pData flags with
    ⟨hstatus, hframe⟩ | ⟨hstatus, -, hlength, hfile, hframe⟩
  · refine ⟨its, ⟨fun _ => rfl, fun h => absurd h hstatus⟩, fun uid' => ?_⟩
    rw [hframe _ (fillFilename_ne_temp uid'), h uid']
  · let e : ItsEntry :=
      { data := pData.take n.toNat, flags := flags
        size_lt := Nat.lt_of_le_of_lt (Nat.le_of_eq hlength) n.toNat_lt }
    refine ⟨Function.update its uid (some e),
      ⟨fun h => absurd hstatus h, fun _ => ⟨e, rfl, hlength, rfl, rfl⟩⟩, fun uid' => ?_⟩
    by_cases huid : uid' = uid
    · subst huid
      have hn : UInt32.ofNat e.data.length = n := by
        rw [hlength]
        exact UInt32.ofNat_toNat
      rw [hfile, Function.update_self, Option.map_some, ItsEntry.file, hn]
    · rw [hframe _ (fillFilename_ne_temp uid') fun hname => huid (psaItsFillFilename_inj hname),
        h uid', Function.update_of_ne huid]

theorem Represents.get (h : Represents dir fs its) (f : ReadFaults) (uid : StorageUid)
    (dataOffset dataLength : UInt32) :
    GetSpec its uid dataOffset dataLength f (psaItsGet dir f fs uid dataOffset dataLength) := by
  by_cases habsent : its uid = none ∨ f.fopen = false
  · have hget : psaItsGet dir f fs uid dataOffset dataLength = .error .errorDoesNotExist := by
      rw [psaItsGet, h.readFile_absent habsent]
    rw [hget]
    refine ⟨nofun, ⟨nofun, ?_⟩, ?_⟩
    · rintro ⟨hopen, -, e, he, -⟩
      rcases habsent with habsent | habsent
      · rw [he] at habsent
        cases habsent
      · rw [hopen] at habsent
        cases habsent
    · intro e he hopen
      rcases habsent with habsent | habsent
      · rw [he] at habsent
        cases habsent
      · rw [hopen] at habsent
        cases habsent
  · obtain ⟨hpresent, hopen⟩ := not_or.mp habsent
    obtain ⟨e, he⟩ := Option.ne_none_iff_exists'.mp hpresent
    have hopen : f.fopen = true := Bool.eq_true_of_not_eq_false hopen
    have hentry : ∀ e', its uid = some e' → e' = e := fun e' he' =>
      Option.some.inj (he'.symm.trans he)
    by_cases hheader : f.header < sizeofItsFileHeader
    · have hget : psaItsGet dir f fs uid dataOffset dataLength = .error .errorDataCorrupt := by
        rw [psaItsGet, h.readFile_eq he hopen, if_pos hheader]
      rw [hget]
      refine ⟨nofun, ⟨nofun, ?_⟩, ?_⟩
      · rintro ⟨-, hheader', -⟩
        exact absurd hheader (Nat.not_lt.mpr hheader')
      · intro _ _ _ hheader'
        exact absurd hheader (Nat.not_lt.mpr hheader')
    · have hheader := Nat.not_lt.mp hheader
      rw [h.get_eq he hopen hheader]
      refine ⟨fun out hout => ?_, ⟨fun hr => ?_, ?_⟩, fun e' he' _ _ hseek hdata hle => ?_⟩
      · split_ifs at hout with hbig hfault
        cases hout
        refine ⟨e, he, Nat.not_lt.mp hbig, rfl, ?_⟩
        rw [length_slice]
        omega
      · split_ifs at hr with hbig hfault
        · exact ⟨hopen, hheader, e, he, hbig⟩
        · cases hr
      · rintro ⟨-, -, e', he', hbig⟩
        obtain rfl := hentry e' he'
        rw [if_pos hbig]
      · obtain rfl := hentry e' he'
        rw [if_neg (Nat.not_lt.mpr hle), if_neg]
        rintro (hseek' | hshort)
        · rw [hseek] at hseek'
          cases hseek'
        · exact absurd hshort (Nat.not_lt.mpr hdata)

theorem Represents.getInfo (h : Represents dir fs its) (f : ReadFaults) (uid : StorageUid) :
    GetInfoSpec its uid f (psaItsGetInfo dir f fs uid) := by
  by_cases habsent : its uid = none ∨ f.fopen = false
  · have hget : psaItsGetInfo dir f fs uid = .error .errorDoesNotExist := by
      rw [psaItsGetInfo, h.readFile_absent habsent]
    rw [hget]
    refine ⟨nofun, fun e he hopen _ => ?_⟩
    rcases habsent with habsent | habsent
    · rw [he] at habsent
      cases habsent
    · rw [hopen] at habsent
      cases habsent
  · obtain ⟨hpresent, hopen⟩ := not_or.mp habsent
    obtain ⟨e, he⟩ := Option.ne_none_iff_exists'.mp hpresent
    rw [h.getInfo_eq he (Bool.eq_true_of_not_eq_false hopen)]
    refine ⟨fun info hinfo => ?_, fun e' he' _ hheader => ?_⟩
    · split_ifs at hinfo
      cases hinfo
      exact ⟨e, he, rfl⟩
    · obtain rfl := Option.some.inj (he'.symm.trans he)
      rw [if_neg (Nat.not_lt.mpr hheader)]

theorem Represents.remove (h : Represents dir fs its) (f : RemoveFaults) (uid : StorageUid) :
    ∃ its', RemoveSpec its its' uid (psaItsRemove dir f fs uid).1 ∧
      Represents dir (psaItsRemove dir f fs uid).2 its' := by
  unfold psaItsRemove
  rcases hopen : fopenRead fs (psaItsFillFilename dir uid) f.fopen with _ | stream
  · exact ⟨its, ⟨fun _ => rfl, nofun⟩, h⟩
  have hfile : (fs (psaItsFillFilename dir uid)).isSome = true := by
    unfold fopenRead at hopen
    split at hopen
    · rename_i hboth
      exact (Bool.and_eq_true_iff.mp hboth).2
    · cases hopen
  unfold ItsFile.remove
  cases f.remove with
  | false => exact ⟨its, ⟨fun _ => rfl, nofun⟩, h⟩
  | true =>
    rw [hfile]
    refine ⟨Function.update its uid none, ⟨nofun, fun _ => ⟨?_, rfl⟩⟩, fun uid' => ?_⟩
    · rw [h uid, Option.isSome_map] at hfile
      exact Option.ne_none_iff_isSome.mpr hfile
    by_cases huid : uid' = uid
    · subst huid
      rw [Function.update_self, Option.map_none]
      exact Function.update_self _ _ _
    · rw [Function.update_of_ne huid, ← h uid']
      exact Function.update_of_ne (fun hname => huid (psaItsFillFilename_inj hname)) _ _

theorem Represents.step (h : Represents dir fs its) (call : ItsCall) :
    ∃ its', ItsMapStep its call (itsStep dir fs call).2 its' ∧
      Represents dir (itsStep dir fs call).1 its' := by
  cases call with
  | set uid n pData flags f =>
    obtain ⟨its', hspec, hrep⟩ := h.set f uid n pData flags
    exact ⟨its', .set hspec, hrep⟩
  | get uid dataOffset dataLength f => exact ⟨its, .get (h.get f uid dataOffset dataLength), h⟩
  | getInfo uid f => exact ⟨its, .getInfo (h.getInfo f uid), h⟩
  | remove uid f =>
    obtain ⟨its', hspec, hrep⟩ := h.remove f uid
    exact ⟨its', .remove hspec, hrep⟩

theorem ItsMapRun.append {its₀ its₁ its₂ : Its} {trace trace' : List (ItsCall × ItsResult)}
    (h : ItsMapRun its₀ trace its₁) (h' : ItsMapRun its₁ trace' its₂) :
    ItsMapRun its₀ (trace ++ trace') its₂ := by
  induction h' with
  | nil => rwa [List.append_nil]
  | snoc _ hs ih =>
    rw [← List.append_assoc]
    exact ih.snoc hs

/-- **Storage over files.** Whatever the C library does, a run of calls on the files is a run on
the map from identifiers to entries, and no entry is in the temporary file. -/
theorem its_file_refines_map (dir : FileName) (fs : FileSystem) (its : Its)
    (h : Represents dir fs its) (calls : List ItsCall) :
    (∃ its', ItsMapRun its (itsRun dir fs calls).2 its' ∧
      Represents dir (itsRun dir fs calls).1 its') ∧
      ∀ uid, psaItsFillFilename dir uid ≠ psaItsStorageTemp dir := by
  refine ⟨?_, fillFilename_ne_temp⟩
  induction calls generalizing fs its with
  | nil => exact ⟨its, .nil, h⟩
  | cons call calls ih =>
    obtain ⟨its₁, hs, h₁⟩ := h.step call
    obtain ⟨its', hrun, h'⟩ := ih _ _ h₁
    exact ⟨its', (ItsMapRun.nil.snoc hs).append hrun, h'⟩

/-- An update in an empty directory where an earlier run has left its temporary file. -/
theorem its_file_refines_map_leftover :
    let fs : FileSystem := Function.update (fun _ => none) (psaItsStorageTemp []) (some [0x50])
    let call : ItsCall := .set 5 2 [0xaa, 0xbb] 1
      { fopen := true, header := 16, data := 2, fclose := true, rename := true, remove := true }
    (∃ its', ItsMapRun (fun _ => none) (itsRun [] fs [call]).2 its' ∧
      Represents [] (itsRun [] fs [call]).1 its') ∧
      ∀ uid, psaItsFillFilename [] uid ≠ psaItsStorageTemp [] :=
  its_file_refines_map [] _ (fun _ => none)
    (fun uid => Function.update_of_ne (fillFilename_ne_temp uid) _ _) _

end TfPsaCrypto.ItsFile
