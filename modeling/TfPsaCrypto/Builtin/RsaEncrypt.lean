import TfPsaCrypto.Builtin.RsaContext
import TfPsaCrypto.Utilities.ConstantTimeMasks

/-!
# RSA encryption

RSAES-PKCS1-v1_5 and RSAES-OAEP of `rsa.c`, with `mbedtls_ct_rsaes_pkcs1_v15_unpadding`.
-/

namespace TfPsaCrypto

open Bytes

/-! ## RSAES-PKCS1-v1_5 -/

def mbedtlsErrRsaInvalidPadding : Int32 := -150

def mbedtlsErrRsaOutputTooLarge : Int32 := -138

def mbedtlsRsaCrypt : UInt8 := 2

/-- The generator, asked for one byte: what it returns and the byte that is then in the buffer. -/
def RsaByteRng := Nat → Int × UInt8

/-- One byte of padding, in `rngDl` attempts from call `k` on. -/
def v15PaddingByte (fRng : RsaByteRng) : Nat → Nat → Except RsaError (UInt8 × Nat)
  | 0, _ => .error (.rngFailed 0)
  | rngDl + 1, k =>
    let (ret, p) := fRng k
    if p = 0 then
      if rngDl = 0 ∨ ret ≠ 0 then .error (.rngFailed ret) else v15PaddingByte fRng rngDl (k + 1)
    else if ret ≠ 0 then .error (.rngFailed ret)
    else .ok (p, k + 1)

def v15Padding (fRng : RsaByteRng) : Nat → Nat → Except RsaError ByteString
  | 0, _ => .ok []
  | nbPad + 1, k =>
    match v15PaddingByte fRng 100 k with
    | .error e => .error e
    | .ok (p, k) =>
      match v15Padding fRng nbPad k with
      | .error e => .error e
      | .ok ps => .ok (p :: ps)

def mbedtlsRsaRsaesPkcs1V15Encrypt (ctx : MbedtlsRsaContext) (fRng : RsaByteRng)
    (input : ByteString) : Except RsaError ByteString :=
  let olen := ctx.len
  if olen < input.length + 11 then .error .badInputData
  else
    let nbPad := olen - 3 - input.length
    match v15Padding fRng nbPad 0 with
    | .error e => .error e
    | .ok ps => mbedtlsRsaPublic ctx (0 :: mbedtlsRsaCrypt :: (ps ++ 0 :: input))

/-- What the unpadding returns, stores in `*olen` and writes to the output buffer. -/
structure V15Unpadded where
  ret : Int32
  olen : UInt64
  output : ByteString
  deriving DecidableEq, Repr

/-- The loop that counts the padding: `pad_done` and `pad_count`. -/
def v15PadLoop : ByteString → UInt64 → UInt64 → UInt64 × UInt64
  | [], padDone, padCount => (padDone, padCount)
  | b :: bs, padDone, padCount =>
    let found := mbedtlsCtUintEq b.toUInt64 0
    let padDone := mbedtlsCtBoolOr padDone found
    v15PadLoop bs padDone (padCount + (mbedtlsCtUintIfElse0 (mbedtlsCtBoolNot padDone) 1).toUInt64)

def mbedtlsCtRsaesPkcs1V15Unpadding (input : ByteString) (outputMaxLen : UInt64) : V15Unpadded :=
  let ilen := UInt64.ofNat input.length
  let plaintextMaxSize := if outputMaxLen > ilen - 11 then ilen - 11 else outputMaxLen
  -- the first byte must be 0, the second the kind of block
  let bad := mbedtlsCtBool (input.getD 0 0).toUInt64
  let bad := mbedtlsCtBoolOr bad
    (mbedtlsCtUintNe (input.getD 1 0).toUInt64 mbedtlsRsaCrypt.toUInt64)
  let (padDone, padCount) := v15PadLoop (input.drop 2) ctFalse 0
  let bad := mbedtlsCtBoolOr bad (mbedtlsCtBoolNot padDone)
  -- there must be at least 8 bytes of padding
  let bad := mbedtlsCtBoolOr bad (mbedtlsCtUintGt 8 padCount)
  let plaintextSize := (mbedtlsCtUintIf bad plaintextMaxSize.toUInt32
    (ilen - padCount - 3).toUInt32).toUInt64
  let outputTooLarge := mbedtlsCtUintGt plaintextSize plaintextMaxSize
  let ret := mbedtlsCtErrorIf bad mbedtlsErrRsaInvalidPadding
    (mbedtlsCtErrorIfElse0 outputTooLarge mbedtlsErrRsaOutputTooLarge)
  let input := input.take 11 ++
    mbedtlsCtZeroizeIf (mbedtlsCtBoolOr bad outputTooLarge) (input.drop 11)
  let plaintextSize := (mbedtlsCtUintIf outputTooLarge plaintextMaxSize.toUInt32
    plaintextSize.toUInt32).toUInt64
  -- the plaintext then starts plaintext_max_size from the end of the buffer
  let moved := mbedtlsCtMemmoveLeft (input.drop (ilen - plaintextMaxSize).toNat)
    (plaintextMaxSize - plaintextSize)
  { ret := ret
    olen := plaintextSize
    output := if outputMaxLen ≠ 0 then moved else [] }

def mbedtlsRsaRsaesPkcs1V15Decrypt (ctx : MbedtlsRsaContext) (input : ByteString)
    (outputMaxLen : UInt64) : Except RsaError V15Unpadded :=
  let ilen := ctx.len
  if ctx.padding ≠ .v15 then .error .badInputData
  else if ilen < 16 ∨ ilen > rsaMpiMaxSize then .error .badInputData
  else
    match mbedtlsRsaPrivate ctx input with
    | .error e => .error e
    | .ok buf => .ok (mbedtlsCtRsaesPkcs1V15Unpadding buf outputMaxLen)

/-! ## RSAES-OAEP -/

def mbedtlsRsaRsaesOaepEncrypt (h : MdFunctions) (ctx : MbedtlsRsaContext) (fRng : RsaRng)
    (label input : ByteString) : Except RsaError ByteString :=
  let hlen := h.size ctx.hashId
  let olen := ctx.len
  if hlen = 0 then .error .badInputData
  else if olen < input.length + 2 * hlen + 2 then .error .badInputData
  else
    let output := List.replicate olen 0
    match fRng hlen with
    | .error code => .error (.rngFailed code)
    | .ok seed =>
      let output := storeAt output 1 seed.1
      match computeHash h ctx.hashId label with
      | .error e => .error e
      | .ok lhash =>
        let output := storeAt output (1 + hlen) lhash
        let p := 1 + hlen + hlen + (olen - 2 * hlen - 2 - input.length)
        let output := storeAt output p [1]
        let output := storeAt output (p + 1) input
        -- maskedDB: Apply dbMask to DB
        match mgfMask h ctx.hashId (slice output (hlen + 1) (olen - hlen - 1))
            (slice output 1 hlen) with
        | .error e => .error e
        | .ok maskedDb =>
          let output := storeAt output (hlen + 1) maskedDb
          -- maskedSeed: Apply seedMask to seed
          match mgfMask h ctx.hashId (slice output 1 hlen)
              (slice output (hlen + 1) (olen - hlen - 1)) with
          | .error e => .error e
          | .ok maskedSeed => mbedtlsRsaPublic ctx (storeAt output 1 maskedSeed)

/-- The loop that gets the length of the zeros: `in_padding` and `pad_len`. -/
def oaepPadLoop : ByteString → UInt64 → UInt64 → UInt64 × UInt64
  | [], inPadding, padLen => (inPadding, padLen)
  | b :: bs, inPadding, padLen =>
    let inPadding := mbedtlsCtBoolAnd inPadding (mbedtlsCtUintEq b.toUInt64 0)
    oaepPadLoop bs inPadding (padLen + (mbedtlsCtUintIfElse0 inPadding 1).toUInt64)

def oaepCheck (ilen hlen : Nat) (lhash buf : ByteString) (outputMaxLen : UInt64) :
    Except RsaError ByteString :=
  let bad := mbedtlsCtBool (buf.getD 0 0).toUInt64
  let p := 1 + hlen
  let bad := mbedtlsCtBoolOr bad (mbedtlsCtBool (mbedtlsCtMemcmp lhash (slice buf p hlen)).toUInt64)
  let p := p + hlen
  let (_, padLen) := oaepPadLoop (slice buf p (ilen - 2 * hlen - 2)) ctTrue 0
  let p := p + padLen.toNat
  let bad := mbedtlsCtBoolOr bad (mbedtlsCtUintNe (buf.getD p 0).toUInt64 0x01)
  let p := p + 1
  if bad ≠ ctFalse then .error .invalidPadding
  else if ilen - p > outputMaxLen.toNat then .error .outputTooLarge
  else .ok (slice buf p (ilen - p))

/-- `mbedtls_rsa_rsaes_oaep_decrypt` after the RSA operation. -/
def oaepUnpad (h : MdFunctions) (hashId : MbedtlsMdType) (label buf : ByteString)
    (outputMaxLen : UInt64) : Except RsaError ByteString :=
  let ilen := buf.length
  let hlen := h.size hashId
  -- seed: Apply seedMask to maskedSeed
  match mgfMask h hashId (slice buf 1 hlen) (slice buf (hlen + 1) (ilen - hlen - 1)) with
  | .error e => .error e
  | .ok seed =>
    let buf := storeAt buf 1 seed
    -- DB: Apply dbMask to maskedDB
    match mgfMask h hashId (slice buf (hlen + 1) (ilen - hlen - 1)) (slice buf 1 hlen) with
    | .error e => .error e
    | .ok db =>
      let buf := storeAt buf (hlen + 1) db
      match computeHash h hashId label with
      | .error e => .error e
      | .ok lhash => oaepCheck ilen hlen lhash buf outputMaxLen

def mbedtlsRsaRsaesOaepDecrypt (h : MdFunctions) (ctx : MbedtlsRsaContext)
    (label input : ByteString) (outputMaxLen : UInt64) : Except RsaError ByteString :=
  let ilen := ctx.len
  let hlen := h.size ctx.hashId
  if ctx.padding ≠ .v21 then .error .badInputData
  else if ilen < 16 ∨ ilen > rsaMpiMaxSize then .error .badInputData
  else if hlen = 0 then .error .badInputData
  else if 2 * hlen + 2 > ilen then .error .badInputData
  else
    match mbedtlsRsaPrivate ctx input with
    | .error e => .error e
    | .ok buf => oaepUnpad h ctx.hashId label buf outputMaxLen

end TfPsaCrypto
