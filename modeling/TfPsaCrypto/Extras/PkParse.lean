import TfPsaCrypto.Core.EcdsaSignature
import TfPsaCrypto.Extras.Pk

/-!
# Parsing keys

The parsers of `pkparse.c` for public keys and for unencrypted private keys in DER: SEC1, PKCS#8 and
RFC 8410. A parser works on the bytes from its pointer to the end that it knows; a byte beyond that
end that is looked at is the error `outOfBounds`.
-/

namespace TfPsaCrypto.Pk

open Bytes Ecp Fallible

/-! ## Object identifiers -/

def mbedtlsAsn1Oid : UInt8 := 0x06

def mbedtlsAsn1OctetString : UInt8 := 0x04

def mbedtlsAsn1Null : UInt8 := 0x05

def mbedtlsAsn1Context (n : UInt8) : UInt8 := 0xA0 ||| n

/-- The tag and the contents. -/
structure MbedtlsAsn1Buf where
  tag : UInt8
  p : ByteString
  deriving DecidableEq, Repr

def asn1GetContents (input : ByteString) (tag : UInt8) :
    Except Asn1Error (ByteString × ByteString) :=
  match mbedtlsAsn1GetTag input tag with
  | .error e => .error e
  | .ok (len, rest) => .ok (rest.take len, rest.drop len)

def asn1Peek : ByteString → Except Asn1Error (UInt8 × ByteString)
  | [] => .error .outOfBounds
  | b :: rest => .ok (b, rest)

def asn1AlgFields (contents : ByteString) : Except Asn1Error (ByteString × MbedtlsAsn1Buf) :=
  match asn1GetContents contents mbedtlsAsn1Oid with
  | .error e => .error e
  | .ok (alg, []) => .ok (alg, { tag := 0, p := [] })
  | .ok (alg, tag :: rest) =>
    match mbedtlsAsn1GetLen rest with
    | .error e => .error e
    | .ok (len, rest) =>
      if rest.drop len ≠ [] then .error .lengthMismatch
      else .ok (alg, { tag := tag, p := rest.take len })

/-- The algorithm, the parameters and the rest. The tag of the algorithm is looked at before the end
becomes that of the sequence. -/
def mbedtlsAsn1GetAlg (input : ByteString) :
    Except Asn1Error (ByteString × MbedtlsAsn1Buf × ByteString) :=
  match mbedtlsAsn1GetTag input mbedtlsAsn1ConstructedSequence with
  | .error e => .error e
  | .ok (len, rest) =>
    if rest.length < 1 then .error .outOfData
    else
      match asn1Peek rest with
      | .error e => .error e
      | .ok _ =>
        match asn1AlgFields (rest.take len) with
        | .error e => .error e
        | .ok (alg, params) => .ok (alg, params, rest.drop len)

def keyInvalidFormat (e : Asn1Error) : PkError := .keyInvalidFormat (some e)

def invalidPubkey (e : Asn1Error) : PkError := .invalidPubkey (some e)

/-! ## Curves -/

end TfPsaCrypto.Pk
