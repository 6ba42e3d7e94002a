import TfPsaCrypto.Utilities.Asn1Write

/-!
# Parsing ASN.1

The functions of `asn1parse.c` that read lengths, tags, integers and bit strings, and
`mbedtls_asn1_get_mpi`. The input is the bytes from `*p` to `end`; a call that succeeds
returns what it read and the bytes that are left.
-/

namespace TfPsaCrypto

open Bytes

/-! ## Length and tag -/

def asn1GetLenLoop : Nat → Nat → ByteString → Except Asn1Error (Nat × ByteString)
  | 0, len, input => .ok (len, input)
  | _ + 1, _, [] => .error .outOfBounds
  | n + 1, len, b :: input => asn1GetLenLoop n (len <<< 8 ||| b.toNat) input

def asn1CheckLen (len : Nat) (input : ByteString) : Except Asn1Error (Nat × ByteString) :=
  if len > input.length then .error .outOfData else .ok (len, input)

def mbedtlsAsn1GetLen (input : ByteString) : Except Asn1Error (Nat × ByteString) :=
  match input with
  | [] => .error .outOfData
  | b :: rest =>
    if b &&& 0x80 = 0 then
      asn1CheckLen b.toNat rest
    else
      let n := (b &&& 0x7F).toNat
      if n = 0 ∨ n > 4 then .error .invalidLength
      else if input.length ≤ n then .error .outOfData
      else
        match asn1GetLenLoop n 0 rest with
        | .error e => .error e
        | .ok (len, rest) => asn1CheckLen len rest

def mbedtlsAsn1GetTag (input : ByteString) (tag : UInt8) : Except Asn1Error (Nat × ByteString) :=
  match input with
  | [] => .error .outOfData
  | b :: rest => if b ≠ tag then .error .unexpectedTag else mbedtlsAsn1GetLen rest

/-! ## Integers -/

/-- The loop of `asn1_get_tagged_int` that skips zeros. -/
def asn1SkipZeros : Nat → ByteString → Except Asn1Error (Nat × ByteString)
  | 0, input => .ok (0, input)
  | _ + 1, [] => .error .outOfBounds
  | len + 1, b :: input => if b = 0 then asn1SkipZeros len input else .ok (len + 1, b :: input)

def asn1GetIntLoop : Nat → Nat → ByteString → Except Asn1Error (Nat × ByteString)
  | 0, val, input => .ok (val, input)
  | _ + 1, _, [] => .error .outOfBounds
  | len + 1, val, b :: input => asn1GetIntLoop len (val <<< 8 ||| b.toNat) input

def asn1GetTaggedInt (input : ByteString) (tag : UInt8) : Except Asn1Error (Nat × ByteString) :=
  match mbedtlsAsn1GetTag input tag with
  | .error e => .error e
  | .ok (len, input) =>
    if len = 0 then .error .invalidLength
    else
      match input with
      | [] => .error .outOfBounds
      | b :: _ =>
        if b &&& 0x80 ≠ 0 then .error .invalidLength
        else
          match asn1SkipZeros len input with
          | .error e => .error e
          | .ok (len, input) =>
            if len > 4 then .error .invalidLength
            else if len = 4 ∧ input.headD 0 &&& 0x80 ≠ 0 then .error .invalidLength
            else asn1GetIntLoop len 0 input

def mbedtlsAsn1GetInt (input : ByteString) : Except Asn1Error (Nat × ByteString) :=
  asn1GetTaggedInt input mbedtlsAsn1Integer

/-- The bytes from `*head`, of which there are `*length`. -/
def mbedtlsAsn1GetInteger (input : ByteString) : Except Asn1Error (ByteString × ByteString) :=
  match mbedtlsAsn1GetTag input mbedtlsAsn1Integer with
  | .error e => .error e
  | .ok (integerLength, input) =>
    if integerLength = 0 then .error .invalidData
    else
      match input with
      | [] => .error .outOfBounds
      | b :: rest =>
        if b &&& 0x80 ≠ 0 then .error .invalidData
        else if integerLength ≥ 2 ∧ b = 0 ∧ rest.headD 0 &&& 0x80 = 0 then .error .invalidData
        else
          let head := input.take integerLength
          .ok (if b = 0 then head.tail else head, input.drop integerLength)

/-- The number changes also where the call fails after the length. -/
def mbedtlsAsn1GetMpi {w : Nat} (isBigEndian : Bool) (input : ByteString) (X : MbedtlsMpi w) :
    Except Asn1Error ByteString × MbedtlsMpi w :=
  match mbedtlsAsn1GetTag input mbedtlsAsn1Integer with
  | .error e => (.error e, X)
  | .ok (len, input) =>
    let r := mbedtlsMpiReadBinary isBigEndian X (input.take len)
    match r.ret with
    | some e => (.error (.mpi e), r.X)
    | none => (.ok (input.drop len), r.X)

/-! ## Bit strings -/

/-- `p` are the `len` bytes. -/
structure MbedtlsAsn1Bitstring where
  p : ByteString
  unusedBits : UInt8
  deriving DecidableEq, Repr

def mbedtlsAsn1GetBitstring (input : ByteString) :
    Except Asn1Error (MbedtlsAsn1Bitstring × ByteString) :=
  match mbedtlsAsn1GetTag input mbedtlsAsn1BitString with
  | .error e => .error e
  | .ok (len, input) =>
    if len < 1 then .error .outOfData
    else
      match input with
      | [] => .error .outOfBounds
      | unusedBits :: rest =>
        if unusedBits > 7 then .error .invalidLength
        else
          let bs := { p := rest.take (len - 1), unusedBits := unusedBits }
          if rest.drop (len - 1) ≠ [] then .error .lengthMismatch
          else .ok (bs, rest.drop (len - 1))

end TfPsaCrypto
