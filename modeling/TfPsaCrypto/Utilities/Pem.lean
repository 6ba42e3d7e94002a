import TfPsaCrypto.Utilities.Base64

/-!
# PEM

`pem.c`. The writer stores through a cursor into a buffer of a given size; the reader takes a C
string. The decryption of a body is a parameter.
-/

namespace TfPsaCrypto

open Bytes

namespace Pem

open Base64 (newline carriageReturn space equalSign mbedtlsBase64Encode mbedtlsBase64Decode)

/-! ## Writing -/

/-- The outcomes of the writer; `overrun` is a store past the buffer. -/
inductive WriteRet where
  | ok
  | bufferTooSmall
  | allocFailed
  | base64 (ret : Base64.Ret)
  | overrun
  deriving DecidableEq, Repr

/-- The outcome, `*olen` where it was set, and the buffer. -/
structure Written where
  ret : WriteRet
  olen : Option Nat
  buf : ByteString
  deriving DecidableEq, Repr

structure Cursor where
  buf : ByteString
  p : Nat

def Cursor.put (c : Cursor) (data : ByteString) : Option Cursor :=
  if c.p + data.length ≤ c.buf.length then
    some { buf := storeAt c.buf c.p data, p := c.p + data.length }
  else none

def putLines : (fuel : Nat) → ByteString → Cursor → Option Cursor
  | 0, _, c => some c
  | fuel + 1, text, c =>
    if text.length = 0 then some c
    else
      let len := if text.length > 64 then 64 else text.length
      match c.put (text.take len) with
      | none => none
      | some c =>
        match c.put [newline] with
        | none => none
        | some c => putLines fuel (text.drop len) c

def putPem (header footer text : ByteString) (c : Cursor) : Option Cursor :=
  match c.put header with
  | none => none
  | some c =>
    match putLines text.length text c with
    | none => none
    | some c =>
      match c.put footer with
      | none => none
      | some c => c.put [0]

def mbedtlsPemWriteBuffer (sizeMax : Nat) (calloc : Nat → Bool)
    (header footer der buf : ByteString) : Written :=
  let useLen := (mbedtlsBase64Encode sizeMax true 0 der).olen.getD 0
  let addLen := header.length + footer.length + (if useLen > 2 then useLen - 2 else 0) / 64 + 1
  let required := (useLen + addLen) % (sizeMax + 1)
  if required > buf.length then { ret := .bufferTooSmall, olen := some required, buf := buf }
  else if useLen ≠ 0 ∧ ¬ calloc useLen then { ret := .allocFailed, olen := none, buf := buf }
  else
    let encoded := mbedtlsBase64Encode sizeMax (useLen = 0) useLen der
    if encoded.ret ≠ .ok then { ret := .base64 encoded.ret, olen := none, buf := buf }
    else
      match putPem header footer (encoded.written.take (encoded.olen.getD 0)) ⟨buf, 0⟩ with
      | none => { ret := .overrun, olen := none, buf := buf }
      | some c =>
        { ret := .ok, olen := some c.p
          buf := storeAt c.buf c.p (List.replicate (c.buf.length - c.p) 0) }

/-! ## Reading -/

/-- `MBEDTLS_ERR_PEM_*`; `base64` is `MBEDTLS_ERR_PEM_INVALID_DATA` with the error of the decoder
added, `decrypt` an error of the decryption. -/
inductive PemError where
  | noHeaderFooterPresent
  | invalidData
  | base64 (ret : Base64.Ret)
  | badInputData
  | allocFailed
  | invalidEncIv
  | unknownEncAlg
  | passwordRequired
  | passwordMismatch
  | decrypt (ret : Int)
  deriving DecidableEq, Repr

/-- The result: the data of the context or an error, and `*use_len` where it was set. -/
structure ReadResult where
  ret : Except PemError ByteString
  useLen : Option Nat

def cString (data : ByteString) : ByteString := data.takeWhile (· ≠ 0)

def strstr (needle : ByteString) : ByteString → Option Nat
  | [] => if needle.isPrefixOf [] then some 0 else none
  | c :: rest =>
    if needle.isPrefixOf (c :: rest) then some 0 else (strstr needle rest).map (· + 1)

def skip (d : ByteString) (s : Nat) (c : UInt8) : Nat := if d.getD s 0 = c then s + 1 else s

def ascii (s : String) : ByteString := s.toList.map Char.toUInt8

/-- `memcmp(s, t, strlen(t)) == 0` at offset `s`, within the `s2 - s` bytes there. -/
def startsAt (d : ByteString) (s s2 : Nat) (t : ByteString) : Bool :=
  s + t.length ≤ s2 && slice d s t.length = t

/-- A digit of `pem_get_iv`. -/
def hexDigit (c : UInt8) : Option UInt8 :=
  if '0'.toUInt8 ≤ c ∧ c ≤ '9'.toUInt8 then some (c - '0'.toUInt8)
  else if 'A'.toUInt8 ≤ c ∧ c ≤ 'F'.toUInt8 then some (c - '7'.toUInt8)
  else if 'a'.toUInt8 ≤ c ∧ c ≤ 'f'.toUInt8 then some (c - 'W'.toUInt8)
  else none

def pemGetIv : ByteString → Option ByteString
  | hi :: lo :: s =>
    match hexDigit hi, hexDigit lo, pemGetIv s with
    | some hi, some lo, some iv => some ((hi <<< 4 ||| lo) :: iv)
    | _, _, _ => none
  | [_] => none
  | [] => some []

/-- The length of the data. -/
def pemCheckPkcsPadding (input : ByteString) : Except PemError Nat :=
  if input.length < 1 then .error .invalidData
  else
    let padLen := (input.getD (input.length - 1) 0).toNat
    if padLen > input.length then .error .passwordMismatch
    else
      let dataLen := input.length - padLen
      if (input.drop dataLen).all fun b => b.toNat = padLen then .ok dataLen
      else .error .passwordMismatch

structure Encryption where
  keylen : Nat
  iv : ByteString

def encAlg (d : ByteString) (s s2 : Nat) : Option Nat :=
  if startsAt d s s2 (ascii "DEK-Info: AES-128-CBC,") then some 16
  else if startsAt d s s2 (ascii "DEK-Info: AES-192-CBC,") then some 24
  else if startsAt d s s2 (ascii "DEK-Info: AES-256-CBC,") then some 32
  else none

def headerLineEnd (d : ByteString) (s : Nat) : Except PemError Nat :=
  let s := skip d s carriageReturn
  if d.getD s 0 = newline then .ok (s + 1) else .error .invalidData

/-- The encryption headers between `s1` and `s2`, and where the body starts. -/
def encryptionHeaders (d : ByteString) (s1 s2 : Nat) :
    Except PemError (Nat × Option Encryption) :=
  if startsAt d s1 s2 (ascii "Proc-Type: 4,ENCRYPTED") then
    match headerLineEnd d (s1 + 22) with
    | .error e => .error e
    | .ok s1 =>
      if startsAt d s1 s2 (ascii "DEK-Info: AES-") then
        match encAlg d s1 s2 with
        | none => .error .unknownEncAlg
        | some keylen =>
          let s1 := s1 + 22
          if s2 < s1 + 32 then .error .invalidEncIv
          else
            match pemGetIv (slice d s1 32) with
            | none => .error .invalidEncIv
            | some iv =>
              match headerLineEnd d (s1 + 32) with
              | .error e => .error e
              | .ok s1 => .ok (s1, some { keylen := keylen, iv := iv })
      else .error .unknownEncAlg
  else .ok (s1, none)

section Read

variable (calloc : Nat → Bool)
  (pemAesDecrypt : ByteString → Nat → ByteString → ByteString → Except Int ByteString)

def decryptBody (enc : Encryption) (buf : ByteString) : Option ByteString →
    Except PemError ByteString
  | none => .error .passwordRequired
  | some pwd =>
    match pemAesDecrypt enc.iv enc.keylen buf pwd with
    | .error ret => .error (.decrypt ret)
    | .ok buf => (pemCheckPkcsPadding buf).map buf.take

def readBody (d : ByteString) (s1 s2 : Nat) (enc : Option Encryption) (pwd : Option ByteString) :
    Except PemError ByteString :=
  if s1 ≥ s2 then .error .invalidData
  else
    let src := slice d s1 (s2 - s1)
    let measured := mbedtlsBase64Decode true 0 src
    let len := measured.olen.getD 0
    if measured.ret = .invalidCharacter then .error (.base64 .invalidCharacter)
    else if len = 0 then .error .badInputData
    else if ¬ calloc len then .error .allocFailed
    else
      let decoded := mbedtlsBase64Decode false len src
      if decoded.ret ≠ .ok then .error (.base64 decoded.ret)
      else
        match enc with
        | none => .ok decoded.written
        | some enc => decryptBody pemAesDecrypt enc decoded.written pwd

/-- `mbedtls_pem_read_buffer` on the memory at `data`. -/
def mbedtlsPemReadBuffer (header footer data : ByteString) (pwd : Option ByteString) :
    ReadResult :=
  let d := cString data
  match strstr header d, strstr footer d with
  | some s1, some s2 =>
    if s2 ≤ s1 then { ret := .error .noHeaderFooterPresent, useLen := none }
    else
      let s1 := skip d (skip d (s1 + header.length) space) carriageReturn
      if d.getD s1 0 ≠ newline then { ret := .error .noHeaderFooterPresent, useLen := none }
      else
        let stop := skip d (skip d (skip d (s2 + footer.length) space) carriageReturn) newline
        { ret :=
            match encryptionHeaders d (s1 + 1) s2 with
            | .error e => .error e
            | .ok (s1, enc) => readBody calloc pemAesDecrypt d s1 s2 enc pwd
          useLen := some stop }
  | _, _ => { ret := .error .noHeaderFooterPresent, useLen := none }

end Read

end Pem

end TfPsaCrypto
