import TfPsaCrypto.Utilities.Asn1Parse

/-!
# ECDSA signature formats

The conversions of `psa_util.c` between `r || s` and the DER form. The two buffers of a call may
overlap: they are ranges of one memory.
-/

namespace TfPsaCrypto

open Bytes

/-! ## Sizes -/

/-- The values of `PSA_VENDOR_ECC_MAX_CURVE_BITS`, by configuration. -/
def psaVendorEccMaxCurveBits : List Nat := [521, 512, 448, 384, 256, 255, 0]

def ecdsaCoordinateSize (bits : Nat) : Nat := (bits + 7) % 2 ^ 64 / 8

/-- `a - b` of `size_t`. -/
def sizeTSub (a b : Nat) : Nat := (a + 2 ^ 64 - b) % 2 ^ 64

def mbedtlsAsn1ConstructedSequence : UInt8 := 0x30

/-! ## Raw to DER -/

def rawSkipZeros : ByteString → Except Asn1Error ByteString
  | [] => .error .outOfBounds
  | b :: raw =>
    if b = 0 then
      if raw.length = 0 then .error .invalidData else rawSkipZeros raw
    else .ok (b :: raw)

def convertRawToDerSingleInt (raw : ByteString) (p : Asn1Writer) : Asn1Written :=
  match rawSkipZeros raw with
  | .error e => p.returns (.error e)
  | .ok raw =>
    if p.space.length < raw.length then
      p.returns (.error .bufTooSmall)
    else
      p.pushBytes raw fun p =>
        if p.topBit then
          if p.space.length < 1 then
            p.returns (.error .bufTooSmall)
          else
            p.pushBytes [0x00] fun p =>
              mbedtlsAsn1WriteLenAndTag p (raw.length + 1) mbedtlsAsn1Integer
        else
          mbedtlsAsn1WriteLenAndTag p raw.length mbedtlsAsn1Integer

def Asn1Writer.seek (p : Asn1Writer) (n : Nat) : Asn1Writer :=
  { space := (p.space ++ p.data).take n, data := (p.space ++ p.data).drop n }

def ecdsaAddCoordinate (raw : ByteString) (len : Nat) (p : Asn1Writer)
    (k : Nat → Asn1Writer → Asn1Written) : Asn1Written :=
  let r := convertRawToDerSingleInt raw p
  match r.ret with
  | .error _ => r
  | .ok ret =>
    if ret < 0 then r else k (len + ret.toNat) (r.p.seek (p.space.length - ret.toNat))

def ecdsaWriteDer (r s : ByteString) (p : Asn1Writer) : Asn1Written :=
  ecdsaAddCoordinate s 0 p fun len p =>
    ecdsaAddCoordinate r len p fun len p =>
      (mbedtlsAsn1WriteLen p len).chkAdd len fun len p =>
        (mbedtlsAsn1WriteTag p mbedtlsAsn1ConstructedSequence).chkAdd len fun len p =>
          p.returns (.ok len)

/-- `mbedtls_ecdsa_raw_to_der` up to curves of `maxBits` bits: `raw` and `der` are offsets in `mem`.
The length and the memory. -/
def mbedtlsEcdsaRawToDer (maxBits bits : Nat) (mem : ByteString) (raw rawLen der derSize : Nat) :
    Except Asn1Error Nat × ByteString :=
  let coordinateLen := ecdsaCoordinateSize bits
  if bits = 0 then (.error .invalidData, mem)
  else if rawLen ≠ 2 * coordinateLen then (.error .invalidData, mem)
  else if coordinateLen > ecdsaCoordinateSize maxBits then (.error .bufTooSmall, mem)
  else
    let r := slice mem raw coordinateLen
    let s := slice mem (raw + coordinateLen) coordinateLen
    let w := ecdsaWriteDer r s { space := slice mem der derSize, data := [] }
    let buffer := w.p.space ++ w.p.data
    match w.ret with
    | .error e => (.error e, storeAt mem der buffer)
    | .ok len =>
      -- `memmove(der, p, len)`
      (.ok len.toNat, storeAt mem der (storeAt buffer 0 (w.p.data.take len.toNat)))

/-! ## DER to raw -/

/-- The end of `convert_der_to_raw_single_int`: `unpaddedLen` bytes from `p` on go to the end of a
cleared coordinate; `p - der`. -/
def derCopyInteger (derLen coordinateSize : Nat) (p : ByteString) (unpaddedLen : Nat) :
    Except Asn1Error (ByteString × Nat) :=
  if unpaddedLen > coordinateSize then .error .invalidData
  else if p.length < unpaddedLen then .error .outOfBounds
  else
    .ok (List.replicate (coordinateSize - unpaddedLen) 0 ++ p.take unpaddedLen,
      derLen - (p.drop unpaddedLen).length)

/-- The INTEGER at the start of `der`, within `derLen` bytes: the coordinate, and how many bytes
were parsed. `none` for a read behind them. -/
def convertDerToRawSingleInt (der : ByteString) (derLen coordinateSize : Nat) :
    Except Asn1Error (ByteString × Nat) :=
  if derLen > der.length then .error .outOfBounds
  else
    match mbedtlsAsn1GetTag (der.take derLen) mbedtlsAsn1Integer with
    | .error e => .error e
    | .ok (unpaddedLen, p) =>
      if unpaddedLen = 0 then .error .invalidData
      else
        match p with
        | [] => .error .outOfBounds
        | b :: rest =>
          if b &&& 0x80 ≠ 0 then .error .invalidData
          else if b = 0 then
            -- a possible leading zero
            if unpaddedLen - 1 > 0 ∧ rest = [] then .error .outOfBounds
            else if unpaddedLen - 1 > 0 ∧ rest.headD 0 = 0 then .error .invalidData
            else derCopyInteger derLen coordinateSize rest (unpaddedLen - 1)
          else derCopyInteger derLen coordinateSize (b :: rest) unpaddedLen

/-- The second INTEGER, from `p` on, and the check that everything has been consumed. -/
def ecdsaReadLast (der p : ByteString) (dataLen coordinateSize : Nat) (r : ByteString) :
    Except Asn1Error ByteString :=
  match convertDerToRawSingleInt p dataLen coordinateSize with
  | .error e => .error e
  | .ok (s, ret) =>
    if der.length - (p.drop ret).length ≠ der.length then .error .lengthMismatch
    else .ok (r ++ s)

/-- The body of `mbedtls_ecdsa_der_to_raw`: what it leaves in `raw_tmp`. -/
def ecdsaReadDer (der : ByteString) (coordinateSize : Nat) : Except Asn1Error ByteString :=
  match mbedtlsAsn1GetTag der mbedtlsAsn1ConstructedSequence with
  | .error e => .error e
  | .ok (dataLen, p) =>
    match convertDerToRawSingleInt p dataLen coordinateSize with
    | .error e => .error e
    | .ok (r, ret) => ecdsaReadLast der (p.drop ret) (sizeTSub dataLen ret) coordinateSize r

/-- `mbedtls_ecdsa_der_to_raw`. Returns the length and the memory. -/
def mbedtlsEcdsaDerToRaw (maxBits bits : Nat) (mem : ByteString) (der derLen raw rawSize : Nat) :
    Except Asn1Error Nat × ByteString :=
  let coordinateSize := ecdsaCoordinateSize bits
  if bits = 0 then (.error .invalidData, mem)
  else if rawSize < coordinateSize * 2 then (.error .bufTooSmall, mem)
  else if 2 * coordinateSize > ecdsaCoordinateSize maxBits * 2 then (.error .bufTooSmall, mem)
  else
    match ecdsaReadDer (slice mem der derLen) coordinateSize with
    | .error e => (.error e, mem)
    | .ok rawTmp => (.ok (2 * coordinateSize), storeAt mem raw rawTmp)

end TfPsaCrypto
