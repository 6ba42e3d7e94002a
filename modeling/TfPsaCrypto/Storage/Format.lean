import TfPsaCrypto.Core.Types
import TfPsaCrypto.Library.Bytes

/-!
# The persistent key file format

`psa_format_key_data_for_storage` and `psa_parse_key_data_from_storage`. A key file is

    magic[8] version[4] lifetime[4] type[2] bits[2] policy[12] data_len[4] key_data[]

with all integers little-endian.
-/

namespace TfPsaCrypto

open Bytes

/-! ## The format -/

/-- The build-time bound on the key material in storage. The field is the
`#error` check of `psa_crypto_storage.h`. -/
structure StorageConfig where
  psaCryptoMaxStorageSize : Nat
  fits : psaCryptoMaxStorageSize ≤ 0xffff0000

/-- The default configuration: `PSA_BITS_TO_BYTES(PSA_MAX_KEY_BITS)`. -/
def StorageConfig.default : StorageConfig where
  psaCryptoMaxStorageSize := (0xfff8 + 7) / 8
  fits := by decide

/-- "PSA", a null byte, "KEY", a null byte. -/
def psaKeyStorageMagicHeader : ByteString := [0x50, 0x53, 0x41, 0x00, 0x4b, 0x45, 0x59, 0x00]

def sizeofStorageFormat : Nat := 36

def psaFormatKeyDataForStorage (data : ByteString) (attr : PsaKeyAttributes) :
    ByteString :=
  psaKeyStorageMagicHeader
    ++ (toLE 4 0
    ++ (toLE 4 attr.lifetime.toNat
    ++ (toLE 2 attr.type.toNat
    ++ (toLE 2 attr.bits.toNat
    ++ (toLE 4 attr.policy.usage.toNat
    ++ (toLE 4 attr.policy.alg.toNat
    ++ (toLE 4 attr.policy.alg2.toNat
    ++ (toLE 4 data.length
    ++ data))))))))

/-- What `psa_parse_key_data_from_storage` leaves behind: its status and its
three output parameters. `keyData` is the caller's pointer, `none` for `NULL`. -/
structure ParsedKey where
  status : PsaStatus
  keyData : Option ByteString
  keyDataLength : Nat
  attr : PsaKeyAttributes
  deriving DecidableEq, Repr

def checkMagicHeader (data : ByteString) : PsaStatus :=
  if slice data 0 8 ≠ psaKeyStorageMagicHeader then .errorDataInvalid else .success

/-- `psa_parse_key_data_from_storage`. `out` are the output parameters as passed; `calloc` may fail.
-/
def psaParseKeyDataFromStorage (cfg : StorageConfig) (calloc : Bool)
    (storageData : ByteString) (out : ParsedKey) : ParsedKey :=
  if storageData.length < sizeofStorageFormat then
    { out with status := .errorDataInvalid }
  else if checkMagicHeader storageData ≠ .success then
    { out with status := checkMagicHeader storageData }
  else if ofLE (slice storageData 8 4) ≠ 0 then
    { out with status := .errorDataInvalid }
  else
    let keyDataLength := ofLE (slice storageData 32 4)
    if keyDataLength > storageData.length - sizeofStorageFormat ∨
        keyDataLength > cfg.psaCryptoMaxStorageSize then
      { out with status := .errorDataInvalid, keyDataLength := keyDataLength }
    else if keyDataLength ≠ 0 ∧ calloc = false then
      { out with
          status := .errorInsufficientMemory
          keyData := none
          keyDataLength := keyDataLength }
    else
      { status := .success
        keyData :=
          if keyDataLength = 0 then none
          else some (slice storageData sizeofStorageFormat keyDataLength)
        keyDataLength := keyDataLength
        attr :=
          { lifetime := BitVec.ofNat 32 (ofLE (slice storageData 12 4))
            type := BitVec.ofNat 16 (ofLE (slice storageData 16 2))
            bits := BitVec.ofNat 16 (ofLE (slice storageData 18 2))
            policy :=
              { usage := BitVec.ofNat 32 (ofLE (slice storageData 20 4))
                alg := BitVec.ofNat 32 (ofLE (slice storageData 24 4))
                alg2 := BitVec.ofNat 32 (ofLE (slice storageData 28 4)) }
            id := out.attr.id } }

/-! ## Reading a formatted file -/

@[simp] theorem length_magic : psaKeyStorageMagicHeader.length = 8 := by
  simp [psaKeyStorageMagicHeader]

theorem length_format (data : ByteString) (attr : PsaKeyAttributes) :
    (psaFormatKeyDataForStorage data attr).length = sizeofStorageFormat + data.length := by
  simp [psaFormatKeyDataForStorage, sizeofStorageFormat]
  omega

theorem ofNat_ofLE_toLE (n : Nat) (v : BitVec (8 * n)) :
    BitVec.ofNat (8 * n) (ofLE (toLE n v.toNat)) = v := by
  have hpow : (256 : Nat) ^ n = 2 ^ (8 * n) := by
    rw [Nat.pow_mul]
  rw [ofLE_toLE_of_lt (by rw [hpow]; exact v.isLt), BitVec.ofNat_toNat, BitVec.setWidth_eq]

theorem ofNat_ofLE_toLE_16 (v : BitVec 16) :
    BitVec.ofNat 16 (ofLE (toLE 2 v.toNat)) = v :=
  ofNat_ofLE_toLE 2 v

theorem ofNat_ofLE_toLE_32 (v : BitVec 32) :
    BitVec.ofNat 32 (ofLE (toLE 4 v.toNat)) = v :=
  ofNat_ofLE_toLE 4 v

section Fields

variable (data : ByteString) (attr : PsaKeyAttributes)

theorem format_magic :
    slice (psaFormatKeyDataForStorage data attr) 0 8 = psaKeyStorageMagicHeader := by
  simp [psaFormatKeyDataForStorage]

theorem format_version :
    slice (psaFormatKeyDataForStorage data attr) 8 4 = toLE 4 0 := by
  simp [psaFormatKeyDataForStorage]

theorem format_lifetime :
    slice (psaFormatKeyDataForStorage data attr) 12 4 = toLE 4 attr.lifetime.toNat := by
  simp [psaFormatKeyDataForStorage]

theorem format_type :
    slice (psaFormatKeyDataForStorage data attr) 16 2 = toLE 2 attr.type.toNat := by
  simp [psaFormatKeyDataForStorage]

theorem format_bits :
    slice (psaFormatKeyDataForStorage data attr) 18 2 = toLE 2 attr.bits.toNat := by
  simp [psaFormatKeyDataForStorage]

theorem format_usage :
    slice (psaFormatKeyDataForStorage data attr) 20 4 = toLE 4 attr.policy.usage.toNat := by
  simp [psaFormatKeyDataForStorage]

theorem format_alg :
    slice (psaFormatKeyDataForStorage data attr) 24 4 = toLE 4 attr.policy.alg.toNat := by
  simp [psaFormatKeyDataForStorage]

theorem format_alg2 :
    slice (psaFormatKeyDataForStorage data attr) 28 4 = toLE 4 attr.policy.alg2.toNat := by
  simp [psaFormatKeyDataForStorage]

theorem format_data_len :
    slice (psaFormatKeyDataForStorage data attr) 32 4 = toLE 4 data.length := by
  simp [psaFormatKeyDataForStorage]

theorem format_key_data :
    slice (psaFormatKeyDataForStorage data attr) sizeofStorageFormat data.length = data := by
  simp [psaFormatKeyDataForStorage, sizeofStorageFormat]

end Fields

/-- **Round trip.** Parsing a formatted key gives back its attributes and its
material. The identifier is not in the file: it stays the caller's. -/
theorem parse_format (cfg : StorageConfig) {data : ByteString}
    (attr : PsaKeyAttributes) (out : ParsedKey) (hpos : 0 < data.length)
    (hmax : data.length ≤ cfg.psaCryptoMaxStorageSize) :
    psaParseKeyDataFromStorage cfg true (psaFormatKeyDataForStorage data attr) out
      = { status := .success
          keyData := some data
          keyDataLength := data.length
          attr := { attr with id := out.attr.id } } := by
  have hlen := length_format data attr
  have hlt : data.length < 256 ^ 4 := by
    have := cfg.fits
    omega
  have hdata := ofLE_toLE_of_lt hlt
  have hmagic : checkMagicHeader (psaFormatKeyDataForStorage data attr) = .success := by
    rw [checkMagicHeader, format_magic, if_neg (by simp)]
  have hversion : ofLE (toLE 4 0) = 0 := by rw [ofLE_toLE]; rfl
  have hne : data.length ≠ 0 := by omega
  unfold psaParseKeyDataFromStorage
  rw [if_neg (by omega), if_neg (by simp [hmagic]), format_version, if_neg (by simp [hversion])]
  simp only [format_lifetime, format_type, format_bits, format_usage, format_alg,
    format_alg2, format_data_len, hdata, format_key_data, ofNat_ofLE_toLE_16,
    ofNat_ofLE_toLE_32]
  rw [if_neg (by omega), if_neg (by simp), if_neg hne]

/-! ## What the parser accepts -/

end TfPsaCrypto
