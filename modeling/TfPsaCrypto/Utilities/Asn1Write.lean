import TfPsaCrypto.Builtin.Bignum
import TfPsaCrypto.Library.Der

/-!
# Writing ASN.1

The functions of `asn1write.c` that write lengths, tags, integers and bit strings, and
`mbedtls_asn1_write_mpi`. They write backwards from `*p` to `start`.
-/

namespace TfPsaCrypto

open Bytes

/-- `MBEDTLS_ERR_ASN1_*`, the errors of `bignum.c`, and two ways not to return: an access
outside the buffer, and an endless loop. -/
inductive Asn1Error where
  | outOfData
  | unexpectedTag
  | invalidLength
  | lengthMismatch
  | invalidData
  | bufTooSmall
  | mpi (e : MpiError)
  | outOfBounds
  | endless
  deriving DecidableEq, Repr

/-- The buffer: the bytes from `start` to `*p`, and the bytes from `*p` on. -/
structure Asn1Writer where
  space : ByteString
  data : ByteString
  deriving DecidableEq, Repr

structure Asn1Written where
  ret : Except Asn1Error Int
  p : Asn1Writer

namespace Asn1Writer

def returns (p : Asn1Writer) (ret : Except Asn1Error Int) : Asn1Written := { ret := ret, p := p }

def moveBack (p : Asn1Writer) (n : Nat) : Asn1Writer :=
  { space := p.space.take (p.space.length - n),
    data := p.space.drop (p.space.length - n) ++ p.data }

end Asn1Writer

/-- `MBEDTLS_ASN1_CHK_ADD`: a negative result is returned, another is added to `len`. -/
def Asn1Written.chkAdd (r : Asn1Written) (len : Nat) (k : Nat → Asn1Writer → Asn1Written) :
    Asn1Written :=
  match r.ret with
  | .error _ => r
  | .ok n => if n < 0 then r else k (len + n.toNat) r.p

/-- `*p -= n`, and `n` bytes are written there; `none` before `start`. -/
def Asn1Writer.pushBytes (p : Asn1Writer) (bytes : ByteString) (k : Asn1Writer → Asn1Written) :
    Asn1Written :=
  if p.space.length < bytes.length then p.returns (.error .outOfBounds)
  else k { space := p.space.take (p.space.length - bytes.length), data := bytes ++ p.data }

def cInt (len : Nat) : Int := Int.bmod len (2 ^ 32)

/-! ## Length and tag -/

/-- `for (size_t l = len; l != 0; l >>= 8) required++`; a `size_t` has at most 8 bytes. -/
def asn1LenBytes : Nat → Nat → Nat
  | 0, _ => 0
  | fuel + 1, l => if l = 0 then 0 else 1 + asn1LenBytes fuel (l / 256)

def asn1WriteLenLoop (k : Asn1Writer → Asn1Written) : Nat → Asn1Writer → Nat → Asn1Written
  | 0, p, _ => k p
  | fuel + 1, p, len =>
    p.pushBytes [UInt8.ofNat len] fun p =>
      if len / 256 = 0 then k p else asn1WriteLenLoop k fuel p (len / 256)

def mbedtlsAsn1WriteLen (p : Asn1Writer) (len : Nat) : Asn1Written :=
  if len > 0xFFFFFFFF then
    p.returns (.error .invalidLength)
  else
    let required := 1 + if len ≥ 0x80 then asn1LenBytes 8 len else 0
    if required > p.space.length then
      p.returns (.error .bufTooSmall)
    else
      asn1WriteLenLoop (fun p =>
        if required > 1 then
          p.pushBytes [UInt8.ofNat (0x80 + required - 1)] fun p => p.returns (.ok required)
        else
          p.returns (.ok required)) 8 p len

def mbedtlsAsn1WriteTag (p : Asn1Writer) (tag : UInt8) : Asn1Written :=
  if p.space.length < 1 then
    p.returns (.error .bufTooSmall)
  else
    p.pushBytes [tag] fun p => p.returns (.ok 1)

def mbedtlsAsn1WriteLenAndTag (p : Asn1Writer) (len : Nat) (tag : UInt8) : Asn1Written :=
  (mbedtlsAsn1WriteLen p len).chkAdd len fun len p =>
    (mbedtlsAsn1WriteTag p tag).chkAdd len fun len p =>
      p.returns (.ok (cInt len))

def mbedtlsAsn1Integer : UInt8 := 0x02

def mbedtlsAsn1BitString : UInt8 := 0x03

/-! ## Integers -/

/-- Whether the first byte from `*p` on has its top bit set. -/
def Asn1Writer.topBit (p : Asn1Writer) : Bool := p.data.headD 0 &&& 0x80 != 0

/-- The `do` loop of `asn1_write_tagged_int`; an `int` has 4 bytes. -/
def asn1WriteIntLoop (k : Nat → Asn1Writer → Asn1Written) :
    Nat → Asn1Writer → Nat → Int → Asn1Written
  | 0, p, len, _ => k len p
  | fuel + 1, p, len, val =>
    if p.space.length < 1 then
      p.returns (.error .bufTooSmall)
    else
      p.pushBytes [UInt8.ofNat (val % 256).toNat] fun p =>
        if val / 256 > 0 then asn1WriteIntLoop k fuel p (len + 1) (val / 256)
        else k (len + 1) p

def asn1WriteTaggedInt (p : Asn1Writer) (val : Int) (tag : UInt8) : Asn1Written :=
  asn1WriteIntLoop (fun len p =>
    if p.topBit then
      if p.space.length < 1 then
        p.returns (.error .bufTooSmall)
      else
        p.pushBytes [0x00] fun p => mbedtlsAsn1WriteLenAndTag p (len + 1) tag
    else
      mbedtlsAsn1WriteLenAndTag p len tag) 4 p 0 val

def mbedtlsAsn1WriteInt (p : Asn1Writer) (val : Int) : Asn1Written :=
  asn1WriteTaggedInt p val mbedtlsAsn1Integer

/-- The counter of leading zeros is an `unsigned int` and wraps. -/
def mbedtlsAsn1WriteInteger (p : Asn1Writer) (integer : ByteString) : Asn1Written :=
  if (integer.takeWhile (· = 0)).length ≥ 2 ^ 32 then
    p.returns (.error .endless)
  else
    let integer := integer.dropWhile (· = 0)
    if p.space.length < integer.length then
      p.returns (.error .bufTooSmall)
    else
      let p := { p with space := List.replicate p.space.length 0 }
      if integer.length = 0 then
        if p.space.length < 1 then
          p.returns (.error .bufTooSmall)
        else
          mbedtlsAsn1WriteLenAndTag (p.moveBack 1) 1 mbedtlsAsn1Integer
      else
        p.pushBytes integer fun p =>
          if p.topBit then
            if p.space.length < 1 then
              p.returns (.error .bufTooSmall)
            else
              p.pushBytes [0x00] fun p =>
                mbedtlsAsn1WriteLenAndTag p (integer.length + 1) mbedtlsAsn1Integer
          else
            mbedtlsAsn1WriteLenAndTag p integer.length mbedtlsAsn1Integer

def mbedtlsAsn1WriteMpi {w : Nat} (p : Asn1Writer) (X : MbedtlsMpi w) : Asn1Written :=
  let len := if mbedtlsMpiSize X = 0 then 1 else mbedtlsMpiSize X
  let finish (len : Nat) (p : Asn1Writer) : Asn1Written :=
    (mbedtlsAsn1WriteLen p len).chkAdd len fun len p =>
      (mbedtlsAsn1WriteTag p mbedtlsAsn1Integer).chkAdd len fun len p =>
        p.returns (.ok (cInt len))
  if p.space.length < len then
    p.returns (.error .bufTooSmall)
  else
    match mbedtlsMpiWriteBinary X len with
    | .error e => (p.moveBack len).returns (.error (.mpi e))
    | .ok bytes =>
      p.pushBytes bytes fun p =>
        if X.s = 1 ∧ p.topBit then
          if p.space.length < 1 then
            p.returns (.error .bufTooSmall)
          else
            p.pushBytes [0x00] fun p => finish (len + 1) p
        else
          finish len p

/-! ## Bit strings -/

def mbedtlsAsn1WriteBitstring (p : Asn1Writer) (buf : ByteString) (bits : Nat) : Asn1Written :=
  let byteLen := (bits + 7) % 2 ^ 64 / 8
  let unusedBits := (byteLen * 8 + 2 ^ 64 - bits) % 2 ^ 64
  if p.space.length < byteLen + 1 then
    p.returns (.error .bufTooSmall)
  else
    let len := byteLen + 1
    let last (k : Asn1Writer → Asn1Written) : Asn1Written :=
      if byteLen > 0 then
        p.pushBytes [buf.getD (byteLen - 1) 0 &&& ~~~UInt8.ofNat (2 ^ unusedBits - 1)] fun p =>
          p.pushBytes (buf.take (byteLen - 1)) k
      else k p
    last fun p =>
      p.pushBytes [UInt8.ofNat unusedBits] fun p =>
        mbedtlsAsn1WriteLenAndTag p len mbedtlsAsn1BitString

/-- The loop of `mbedtls_asn1_write_named_bitstring`: the bits that are left. -/
def asn1TrimLoop (buf : ByteString) : Nat → Nat → Nat → UInt8 → Nat
  | 0, bits, _, _ => bits
  | fuel + 1, bits, curByte, curByteShifted =>
    let bit := curByteShifted &&& 0x1
    let curByteShifted := curByteShifted >>> 1
    if bit ≠ 0 then bits
    else if bits - 1 = 0 then 0
    else if (bits - 1) % 8 = 0 then
      asn1TrimLoop buf fuel (bits - 1) (curByte - 1) (buf.getD (curByte - 1) 0)
    else asn1TrimLoop buf fuel (bits - 1) curByte curByteShifted

def mbedtlsAsn1WriteNamedBitstring (p : Asn1Writer) (buf : ByteString) (bits : Nat) :
    Asn1Written :=
  let byteLen := (bits + 7) % 2 ^ 64 / 8
  let unusedBits := (byteLen * 8 + 2 ^ 64 - bits) % 2 ^ 64
  let bits :=
    if bits ≠ 0 then
      asn1TrimLoop buf bits bits (byteLen - 1) (buf.getD (byteLen - 1) 0 >>> UInt8.ofNat unusedBits)
    else bits
  mbedtlsAsn1WriteBitstring p buf bits

end TfPsaCrypto
