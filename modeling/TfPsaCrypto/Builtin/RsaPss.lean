import TfPsaCrypto.Builtin.RsaContext

/-!
# RSASSA-PSS

`rsa_rsassa_pss_sign_no_mode_check` with its callers, and `mbedtls_rsa_rsassa_pss_verify_ext`.
-/

namespace TfPsaCrypto

open Bytes

def mbedtlsRsaSaltLenAny : Int := -1

/-! ## Signing -/

/-- The length of the salt, or `none` where it does not fit. -/
def pssSaltLen (saltlen : Int) (olen hlen : Nat) : Option Nat :=
  if saltlen = mbedtlsRsaSaltLenAny then
    -- the largest salt that fits, up to the size of the hash
    let minSlen := hlen - 2
    if olen < hlen + minSlen + 2 then none
    else if olen ≥ hlen + hlen + 2 then some hlen
    else some (olen - hlen - 2)
  else if saltlen < 0 ∨ saltlen + hlen + 2 > olen then none
  else some saltlen.toNat

/-- The buffer that is passed to `mbedtls_rsa_private`, for a modulus of `modBits` bits. -/
def pssEncode (h : MdFunctions) (hashId : MbedtlsMdType) (modBits olen : Nat)
    (hash salt : ByteString) : Except RsaError ByteString :=
  let hlen := h.size hashId
  let slen := salt.length
  let sig := List.replicate olen 0
  let msb := modBits - 1
  let p := olen - hlen - slen - 2
  let sig := storeAt sig p [0x01]
  let sig := storeAt sig (p + 1) salt
  match hashMprime h hashId hash salt with
  | .error e => .error e
  | .ok digest =>
    let sig := storeAt sig (p + 1 + slen) digest
    -- compensate for boundary condition when applying mask
    let offset := if msb % 8 = 0 then 1 else 0
    match mgfMask h hashId (slice sig offset (olen - hlen - 1 - offset)) digest with
    | .error e => .error e
    | .ok masked =>
      let sig := storeAt sig offset masked
      let sig := storeAt sig 0 [sig.headD 0 &&& UInt8.ofNat (0xFF >>> (olen * 8 - msb))]
      .ok (storeAt sig (p + 1 + slen + hlen) [0xBC])

/-- `hash_id` of a signature. -/
def pssHashId (ctx : MbedtlsRsaContext) (mdAlg : MbedtlsMdType) : MbedtlsMdType :=
  if ctx.hashId = .none then mdAlg else ctx.hashId

def rsaRsassaPssSignNoModeCheck (h : MdFunctions) (ctx : MbedtlsRsaContext) (fRng : RsaRng)
    (mdAlg : MbedtlsMdType) (hash : ByteString) (saltlen : Int) : Except RsaError ByteString :=
  let olen := ctx.len
  if mdAlg ≠ .none ∧ (h.size mdAlg = 0 ∨ hash.length ≠ h.size mdAlg) then .error .badInputData
  else
    let hashId := pssHashId ctx mdAlg
    let hlen := h.size hashId
    if hlen = 0 then .error .badInputData
    else
      match pssSaltLen saltlen olen hlen with
      | none => .error .badInputData
      | some slen =>
        match fRng slen with
        | .error code => .error (.rngFailed code)
        | .ok salt =>
          match pssEncode h hashId ctx.bitlen olen hash salt.1 with
          | .error e => .error e
          | .ok sig => mbedtlsRsaPrivate ctx sig

def rsaRsassaPssSign (h : MdFunctions) (ctx : MbedtlsRsaContext) (fRng : RsaRng)
    (mdAlg : MbedtlsMdType) (hash : ByteString) (saltlen : Int) : Except RsaError ByteString :=
  if ctx.padding ≠ .v21 then .error .badInputData
  else if ctx.hashId = .none ∧ mdAlg = .none then .error .badInputData
  else rsaRsassaPssSignNoModeCheck h ctx fRng mdAlg hash saltlen

def mbedtlsRsaRsassaPssSignNoModeCheck (h : MdFunctions) (ctx : MbedtlsRsaContext) (fRng : RsaRng)
    (mdAlg : MbedtlsMdType) (hash : ByteString) : Except RsaError ByteString :=
  rsaRsassaPssSignNoModeCheck h ctx fRng mdAlg hash mbedtlsRsaSaltLenAny

def mbedtlsRsaRsassaPssSignExt (h : MdFunctions) (ctx : MbedtlsRsaContext) (fRng : RsaRng)
    (mdAlg : MbedtlsMdType) (hash : ByteString) (saltlen : Int) : Except RsaError ByteString :=
  rsaRsassaPssSign h ctx fRng mdAlg hash saltlen

/-! ## Verifying -/

/-- `while (p < hash_start - 1 && *p == 0) p++`, over the bytes before `hash_start`. -/
def pssSkipZeros : ByteString → ByteString
  | b :: c :: bs => if b = 0 then pssSkipZeros (c :: bs) else b :: c :: bs
  | bs => bs

/-- The checks behind the masks, on the bytes from `p` to `hash_start` and on the hash. -/
def pssCheckDb (h : MdFunctions) (mgf1HashId : MbedtlsMdType) (hash : ByteString)
    (expectedSaltLen : Int) (db digest : ByteString) : Except RsaError Unit :=
  match pssSkipZeros db with
  | [] => .error .invalidPadding
  | b :: salt =>
    if b ≠ 0x01 then .error .invalidPadding
    else if expectedSaltLen ≠ mbedtlsRsaSaltLenAny ∧
        (salt.length : Int) ≠ expectedSaltLen % 2 ^ 64 then
      .error .invalidPadding
    else
      match hashMprime h mgf1HashId hash salt with
      | .error e => .error e
      | .ok result => if digest ≠ result then .error .verifyFailed else .ok ()

/-- What is checked of the result of `mbedtls_rsa_public`. -/
def pssCheck (h : MdFunctions) (mdAlg mgf1HashId : MbedtlsMdType) (hash : ByteString)
    (expectedSaltLen : Int) (modBits : Nat) (buf : ByteString) (siglen : Nat) :
    Except RsaError Unit :=
  if buf.getD (siglen - 1) 0 ≠ 0xBC then .error .invalidPadding
  else if mdAlg ≠ .none ∧ (h.size mdAlg = 0 ∨ hash.length ≠ h.size mdAlg) then
    .error .badInputData
  else
    let hlen := h.size mgf1HashId
    if hlen = 0 then .error .badInputData
    else
      let msb := modBits - 1
      if (buf.headD 0).toNat >>> (8 + msb - siglen * 8) ≠ 0 then .error .badInputData
      else
        -- compensate for boundary condition when applying mask
        let p := if msb % 8 = 0 then 1 else 0
        let siglen := siglen - p
        if siglen < hlen + 2 then .error .badInputData
        else
          let hashStart := p + siglen - hlen - 1
          let digest := slice buf hashStart hlen
          match mgfMask h mgf1HashId (slice buf p (siglen - hlen - 1)) digest with
          | .error e => .error e
          | .ok unmasked =>
            let buf := storeAt buf p unmasked
            let buf := storeAt buf 0 [buf.headD 0 &&& UInt8.ofNat (0xFF >>> (siglen * 8 - msb))]
            pssCheckDb h mgf1HashId hash expectedSaltLen (slice buf p (hashStart - p)) digest

def mbedtlsRsaRsassaPssVerifyExt (h : MdFunctions) (ctx : MbedtlsRsaContext)
    (mdAlg : MbedtlsMdType) (hash : ByteString) (mgf1HashId : MbedtlsMdType)
    (expectedSaltLen : Int) (sig : ByteString) : Except RsaError Unit :=
  let siglen := ctx.len
  if siglen < 16 ∨ siglen > rsaMpiMaxSize then .error .badInputData
  else
    match mbedtlsRsaPublic ctx sig with
    | .error e => .error e
    | .ok buf => pssCheck h mdAlg mgf1HashId hash expectedSaltLen ctx.bitlen buf siglen

/-- `mbedtls_rsa_pkcs1_verify` in the mode `MBEDTLS_RSA_PKCS_V21`. -/
def rsaPkcs1VerifyPss (h : MdFunctions) (ctx : MbedtlsRsaContext) (mdAlg : MbedtlsMdType)
    (hash sig : ByteString) : Except RsaError Unit :=
  mbedtlsRsaRsassaPssVerifyExt h ctx mdAlg hash (pssHashId ctx mdAlg) mbedtlsRsaSaltLenAny sig

end TfPsaCrypto
