import TfPsaCrypto.Builtin.Cipher
import TfPsaCrypto.Builtin.RsaContext
import TfPsaCrypto.Builtin.RsaDerParse
import TfPsaCrypto.Extras.PkParse
import TfPsaCrypto.Utilities.Pbkdf2

/-!
# PBES2

`mbedtls_pkcs5_pbes2_ext` with the parser of its parameters. Every hash function and AES in CBC
mode are in the build.
-/

namespace TfPsaCrypto.Pkcs5

open Bytes
open Pk (MbedtlsAsn1Buf asn1GetContents mbedtlsAsn1GetAlg mbedtlsAsn1Oid mbedtlsAsn1OctetString
  mbedtlsAsn1Null)
open RsaDer (asn1ConstructedSequence)

/-! ## Object identifiers -/

def oidPkcs5Pbkdf2 : ByteString := [0x2a, 0x86, 0x48, 0x86, 0xf7, 0x0d, 0x01, 0x05, 0x0c]

def oidMdHmac : List (ByteString × MbedtlsMdType) :=
  [([0x2a, 0x86, 0x48, 0x86, 0xf7, 0x0d, 0x02, 0x07], .sha1),
    ([0x2a, 0x86, 0x48, 0x86, 0xf7, 0x0d, 0x02, 0x08], .sha224),
    ([0x2a, 0x86, 0x48, 0x86, 0xf7, 0x0d, 0x02, 0x09], .sha256),
    ([0x2a, 0x86, 0x48, 0x86, 0xf7, 0x0d, 0x02, 0x0a], .sha384),
    ([0x2a, 0x86, 0x48, 0x86, 0xf7, 0x0d, 0x02, 0x0b], .sha512),
    ([0x60, 0x86, 0x48, 0x01, 0x65, 0x03, 0x04, 0x02, 0x0d], .sha3_224),
    ([0x60, 0x86, 0x48, 0x01, 0x65, 0x03, 0x04, 0x02, 0x0e], .sha3_256),
    ([0x60, 0x86, 0x48, 0x01, 0x65, 0x03, 0x04, 0x02, 0x0f], .sha3_384),
    ([0x60, 0x86, 0x48, 0x01, 0x65, 0x03, 0x04, 0x02, 0x10], .sha3_512),
    ([0x2b, 0x06, 0x01, 0x05, 0x05, 0x08, 0x01, 0x04], .ripemd160)]

def mbedtlsOidGetMdHmac (oid : ByteString) : Option MbedtlsMdType := oidMdHmac.lookup oid

inductive MbedtlsCipherType where
  | aes128Cbc
  | aes192Cbc
  | aes256Cbc
  deriving DecidableEq, Repr

def oidCipherAlg : List (ByteString × MbedtlsCipherType) :=
  [([0x60, 0x86, 0x48, 0x01, 0x65, 0x03, 0x04, 0x01, 0x02], .aes128Cbc),
    ([0x60, 0x86, 0x48, 0x01, 0x65, 0x03, 0x04, 0x01, 0x16], .aes192Cbc),
    ([0x60, 0x86, 0x48, 0x01, 0x65, 0x03, 0x04, 0x01, 0x2a], .aes256Cbc)]

def mbedtlsOidGetCipherAlg (oid : ByteString) : Option MbedtlsCipherType := oidCipherAlg.lookup oid

/-- `mbedtls_cipher_info_get_key_bitlen` of three ciphers with blocks and vectors of 16 bytes. -/
def mbedtlsCipherInfoGetKeyBitlen : MbedtlsCipherType → Nat
  | .aes128Cbc => 128
  | .aes192Cbc => 192
  | .aes256Cbc => 256

/-! ## The parameters -/

/-- `MBEDTLS_ERR_PKCS5_*`, the first with the ASN.1 error that is added to it, and the errors of
other modules. -/
inductive Pkcs5Error where
  | invalidFormat (e : Option Asn1Error)
  | featureUnavailable
  | passwordMismatch
  | bufTooSmall
  | mdAllocFailed
  | cipher (e : CipherError)
  deriving DecidableEq, Repr

structure Pbkdf2Params where
  salt : ByteString
  iterations : Nat
  keylen : Nat
  mdType : MbedtlsMdType
  deriving DecidableEq, Repr

structure Pbes2Params where
  pbkdf2 : Pbkdf2Params
  cipherAlg : MbedtlsCipherType
  iv : ByteString
  deriving DecidableEq, Repr

def mbedtlsAsn1GetAlgNull (input : ByteString) : Except Asn1Error (ByteString × ByteString) :=
  match mbedtlsAsn1GetAlg input with
  | .error e => .error e
  | .ok (alg, params, rest) =>
    if (params.tag ≠ mbedtlsAsn1Null ∧ params.tag ≠ 0) ∨ params.p.length ≠ 0 then
      .error .invalidData
    else .ok (alg, rest)

/-- The optional `keyLength`: where the next element has another tag, nothing is read. -/
def pkcs5GetKeylen (input : ByteString) : Except Asn1Error (Nat × ByteString) :=
  match mbedtlsAsn1GetInt input with
  | .ok r => .ok r
  | .error e => if e ≠ .unexpectedTag then .error e else .ok (0, input)

/-- The optional fields of `PBKDF2-params`: the key length, the hash function. -/
def pkcs5GetOptional (input : ByteString) : Except Pkcs5Error (Nat × MbedtlsMdType) :=
  if input = [] then .ok (0, .sha1)
  else
    match pkcs5GetKeylen input with
    | .error e => .error (.invalidFormat (some e))
    | .ok (keylen, input) =>
      if input = [] then .ok (keylen, .sha1)
      else
        match mbedtlsAsn1GetAlgNull input with
        | .error e => .error (.invalidFormat (some e))
        | .ok (prfAlgOid, input) =>
          match mbedtlsOidGetMdHmac prfAlgOid with
          | none => .error .featureUnavailable
          | some mdType =>
            if input ≠ [] then .error (.invalidFormat (some .lengthMismatch))
            else .ok (keylen, mdType)

def pkcs5ParsePbkdf2Params (params : MbedtlsAsn1Buf) : Except Pkcs5Error Pbkdf2Params :=
  if params.tag ≠ asn1ConstructedSequence then .error (.invalidFormat (some .unexpectedTag))
  else
    match asn1GetContents params.p mbedtlsAsn1OctetString with
    | .error e => .error (.invalidFormat (some e))
    | .ok (salt, input) =>
      match mbedtlsAsn1GetInt input with
      | .error e => .error (.invalidFormat (some e))
      | .ok (iterations, input) =>
        match pkcs5GetOptional input with
        | .error e => .error e
        | .ok (keylen, mdType) =>
          .ok { salt := salt, iterations := iterations, keylen := keylen, mdType := mdType }

/-- The part of `mbedtls_pkcs5_pbes2_ext` before the checks of `output_size`. -/
def pbes2ParseParams (pbeParams : MbedtlsAsn1Buf) : Except Pkcs5Error Pbes2Params :=
  if pbeParams.tag ≠ asn1ConstructedSequence then .error (.invalidFormat (some .unexpectedTag))
  else
    match mbedtlsAsn1GetAlg pbeParams.p with
    | .error e => .error (.invalidFormat (some e))
    | .ok (kdfAlgOid, kdfAlgParams, input) =>
      if kdfAlgOid ≠ oidPkcs5Pbkdf2 then .error .featureUnavailable
      else
        match pkcs5ParsePbkdf2Params kdfAlgParams with
        | .error e => .error e
        | .ok pbkdf2 =>
          match mbedtlsAsn1GetAlg input with
          | .error e => .error (.invalidFormat (some e))
          | .ok (encSchemeOid, encSchemeParams, _) =>
            match mbedtlsOidGetCipherAlg encSchemeOid with
            | none => .error .featureUnavailable
            | some cipherAlg =>
              if encSchemeParams.tag ≠ mbedtlsAsn1OctetString ∨
                  encSchemeParams.p.length ≠ 16 then .error (.invalidFormat none)
              else .ok { pbkdf2 := pbkdf2, cipherAlg := cipherAlg, iv := encSchemeParams.p }

/-! ## `mbedtls_pkcs5_pbes2_ext` -/

/-- The size of `size_t`, HMAC with each hash function, and AES. -/
structure Pkcs5Platform where
  sizeMax : Nat
  hmac : MbedtlsMdType → HmacFunction
  aes : AesCipher

structure Pkcs5Env where
  mdSetup : Bool
  cipherSetup : Bool

/-- What is returned, the bytes written to `output`, and `*output_len`. -/
structure Pbes2Result where
  ret : Option Pkcs5Error
  output : ByteString
  outputLen : Nat
  deriving DecidableEq, Repr

def mbedtlsPkcs5Decrypt : Int := 0

def mbedtlsPkcs5Encrypt : Int := 1

variable (P : Pkcs5Platform) (env : Pkcs5Env)

def mbedtlsPkcs5Pbkdf2HmacExt (mdAlg : MbedtlsMdType) (password salt : ByteString)
    (iterationCount keyLength : Nat) : Except Pkcs5Error ByteString :=
  if env.mdSetup = false then .error .mdAllocFailed
  else .ok (pkcs5Pbkdf2Hmac (P.hmac mdAlg) password salt iterationCount keyLength)

/-- The operation that `mbedtls_cipher_setkey` is given. -/
def cipherOperation (mode : Int) : Except CipherError MbedtlsOperation :=
  if mode = mbedtlsPkcs5Encrypt then .ok .encrypt
  else if mode = mbedtlsPkcs5Decrypt then .ok .decrypt
  else .error .badInputData

/-- The checks of `output_size`. The sum is of type `size_t`. -/
def outputTooSmall (mode : Int) (datalen outputSize : Nat) : Prop :=
  (mode = mbedtlsPkcs5Decrypt ∧ outputSize < datalen) ∨
    (mode = mbedtlsPkcs5Encrypt ∧ outputSize < (datalen + (16 - datalen % 16)) % (P.sizeMax + 1))

instance (mode : Int) (datalen outputSize : Nat) :
    Decidable (outputTooSmall P mode datalen outputSize) :=
  inferInstanceAs (Decidable (_ ∨ _))

def pbes2Crypt (mode : Int) (key iv data : ByteString) (outputLen : Nat) : Pbes2Result :=
  if env.cipherSetup = false then
    { ret := some (.cipher .allocFailed), output := [], outputLen := outputLen }
  else
    match cipherOperation mode with
    | .error e => { ret := some (.cipher e), output := [], outputLen := outputLen }
    | .ok operation =>
      let r := mbedtlsCipherCrypt P.aes
        { operation := operation, key := key, padding := true, iv := [], unprocessed := [] }
        iv data outputLen
      { ret := if r.ret = none then none else some .passwordMismatch
        output := r.output, outputLen := r.olen }

/-- `outputLen` is the value of `*output_len` before the call. -/
def mbedtlsPkcs5Pbes2Ext (pbeParams : MbedtlsAsn1Buf) (mode : Int) (pwd data : ByteString)
    (outputSize outputLen : Nat) : Pbes2Result :=
  match pbes2ParseParams pbeParams with
  | .error e => { ret := some e, output := [], outputLen := outputLen }
  | .ok params =>
    -- the key length of the parameters is not used
    let keylen := mbedtlsCipherInfoGetKeyBitlen params.cipherAlg / 8
    if outputTooSmall P mode data.length outputSize then
      { ret := some .bufTooSmall, output := [], outputLen := outputLen }
    else
      match mbedtlsPkcs5Pbkdf2HmacExt P env params.pbkdf2.mdType pwd params.pbkdf2.salt
          params.pbkdf2.iterations keylen with
      | .error e => { ret := some e, output := [], outputLen := outputLen }
      | .ok key => pbes2Crypt P env mode key params.iv data outputLen

end TfPsaCrypto.Pkcs5
