import TfPsaCrypto.Utilities.Pkcs5

/-!
# What PBES2 does

With accepted parameters encryption and decryption are inverse, and `output_size` is checked first.
-/

namespace TfPsaCrypto.Pkcs5

open Bytes
open Pk (MbedtlsAsn1Buf asn1GetContents asn1AlgFields mbedtlsAsn1GetAlg mbedtlsAsn1Oid
  mbedtlsAsn1OctetString)
open RsaDer (IsElement asn1ConstructedSequence of_mbedtlsAsn1GetTag of_mbedtlsAsn1GetInt)

/-! ## Consumed parameters -/

def IsAlgorithm (oid : ByteString) (params : MbedtlsAsn1Buf) (bytes : ByteString) : Prop :=
  ∃ body oidField paramsField, IsElement asn1ConstructedSequence body bytes ∧
    IsElement mbedtlsAsn1Oid oid oidField ∧ body = oidField ++ paramsField ∧
    ((paramsField = [] ∧ params = { tag := 0, p := [] }) ∨
      IsElement params.tag params.p paramsField)

def IsPbkdf2Params (contents : ByteString) : Prop :=
  ∃ salt saltField count countField keylenField prfField,
    IsElement mbedtlsAsn1OctetString salt saltField ∧
    IsElement mbedtlsAsn1Integer count countField ∧
    (keylenField = [] ∨ ∃ keylen, IsElement mbedtlsAsn1Integer keylen keylenField) ∧
    (prfField = [] ∨ ∃ oid params, IsAlgorithm oid params prfField ∧ params.p = []) ∧
    contents = saltField ++ countField ++ keylenField ++ prfField

def IsPbes2Params (contents : ByteString) : Prop :=
  ∃ kdfParams kdfField encOid encParams encField,
    IsAlgorithm oidPkcs5Pbkdf2 kdfParams kdfField ∧
    kdfParams.tag = asn1ConstructedSequence ∧ IsPbkdf2Params kdfParams.p ∧
    IsAlgorithm encOid encParams encField ∧ encParams.tag = mbedtlsAsn1OctetString ∧
    contents = kdfField ++ encField

def IsTwoSequences (contents : ByteString) : Prop :=
  ∃ first firstField second secondField,
    IsElement asn1ConstructedSequence first firstField ∧
    IsElement asn1ConstructedSequence second secondField ∧
    contents = firstField ++ secondField

variable {input rest oid : ByteString} {params : MbedtlsAsn1Buf}

theorem isElement_unique {tag : UInt8} {x y field field' tail tail' : ByteString}
    (h : IsElement tag x field) (h' : IsElement tag y field')
    (heq : field ++ tail = field' ++ tail') : tail = tail' := by
  have htag := h.getTag tail
  rw [heq, h'.getTag tail'] at htag
  simp only [Except.ok.injEq, Prod.mk.injEq] at htag
  have hdrop := congrArg (List.drop x.length) htag.2
  rw [← htag.1, List.drop_left, htag.1, List.drop_left] at hdrop
  exact hdrop.symm

theorem of_asn1GetContents {tag : UInt8} {contents : ByteString}
    (h : asn1GetContents input tag = .ok (contents, rest)) :
    ∃ field, IsElement tag contents field ∧ input = field ++ rest := by
  unfold asn1GetContents at h
  rcases htag : mbedtlsAsn1GetTag input tag with e | ⟨n, tail⟩
  · rw [htag] at h
    cases h
  · rw [htag] at h
    obtain ⟨field, hfield, _, hinput⟩ := of_mbedtlsAsn1GetTag htag
    cases h
    exact ⟨field, hfield, hinput⟩

theorem of_asn1AlgFields (h : asn1AlgFields input = .ok (oid, params)) :
    ∃ oidField paramsField, IsElement mbedtlsAsn1Oid oid oidField ∧
      input = oidField ++ paramsField ∧
      ((paramsField = [] ∧ params = { tag := 0, p := [] }) ∨
        IsElement params.tag params.p paramsField) := by
  unfold asn1AlgFields at h
  rcases hoid : asn1GetContents input mbedtlsAsn1Oid with e | ⟨alg, tail⟩
  · rw [hoid] at h
    cases h
  obtain ⟨field, hfield, hinput⟩ := of_asn1GetContents hoid
  rw [hoid] at h
  cases tail with
  | nil =>
    cases h
    exact ⟨field, [], hfield, hinput, .inl ⟨rfl, rfl⟩⟩
  | cons tag tail =>
    dsimp only at h
    rcases hlen : mbedtlsAsn1GetLen tail with e | ⟨len, contents⟩
    · rw [hlen] at h
      cases h
    rw [hlen] at h
    dsimp only at h
    split at h
    · cases h
    next hend =>
    cases h
    -- the tag is any byte, and the length behind it is that of an element
    have htag : mbedtlsAsn1GetTag (tag :: tail) tag = .ok (len, contents) := by
      rw [← hlen]
      exact if_neg (by simp)
    obtain ⟨paramsField, hparams, _, hsplit⟩ := of_mbedtlsAsn1GetTag htag
    rw [not_not.mp hend, List.append_nil] at hsplit
    exact ⟨field, paramsField, hfield, hsplit ▸ hinput, .inr hparams⟩

theorem of_mbedtlsAsn1GetAlg (h : mbedtlsAsn1GetAlg input = .ok (oid, params, rest)) :
    ∃ field, IsAlgorithm oid params field ∧ input = field ++ rest := by
  unfold mbedtlsAsn1GetAlg at h
  rcases htag : mbedtlsAsn1GetTag input mbedtlsAsn1ConstructedSequence with e | ⟨len, tail⟩
  · rw [htag] at h
    cases h
  obtain ⟨field, hfield, _, hinput⟩ := of_mbedtlsAsn1GetTag htag
  rw [htag] at h
  dsimp only at h
  split at h
  · cases h
  split at h
  · cases h
  split at h
  · cases h
  next hfields =>
    cases h
    obtain ⟨oidField, paramsField, hoid, hbody, hparams⟩ := of_asn1AlgFields hfields
    exact ⟨field, ⟨_, oidField, paramsField, hfield, hoid, hbody, hparams⟩, hinput⟩

theorem of_pkcs5GetKeylen {keylen : Nat} (h : pkcs5GetKeylen input = .ok (keylen, rest)) :
    ∃ field, (field = [] ∨ ∃ contents, IsElement mbedtlsAsn1Integer contents field) ∧
      input = field ++ rest := by
  unfold pkcs5GetKeylen at h
  split at h
  · next r hint =>
    cases h
    obtain ⟨contents, field, hfield, hinput, _⟩ := of_mbedtlsAsn1GetInt hint
    exact ⟨field, .inr ⟨contents, hfield⟩, hinput⟩
  · split at h
    · cases h
    · cases h
      exact ⟨[], .inl rfl, rfl⟩

theorem of_mbedtlsAsn1GetAlgNull (h : mbedtlsAsn1GetAlgNull input = .ok (oid, rest)) :
    ∃ field params, IsAlgorithm oid params field ∧ params.p = [] ∧ input = field ++ rest := by
  unfold mbedtlsAsn1GetAlgNull at h
  split at h
  · cases h
  next alg =>
    split at h
    · cases h
    next hnull =>
      cases h
      obtain ⟨field, hfield, hinput⟩ := of_mbedtlsAsn1GetAlg alg
      refine ⟨field, _, hfield, ?_, hinput⟩
      have hempty := fun hne => hnull (.inr hne)
      exact List.length_eq_zero_iff.mp (not_not.mp hempty)

theorem of_pkcs5GetOptional {r : Nat × MbedtlsMdType} (h : pkcs5GetOptional input = .ok r) :
    ∃ keylenField prfField,
      (keylenField = [] ∨ ∃ keylen, IsElement mbedtlsAsn1Integer keylen keylenField) ∧
      (prfField = [] ∨ ∃ oid params, IsAlgorithm oid params prfField ∧ params.p = []) ∧
      input = keylenField ++ prfField := by
  unfold pkcs5GetOptional at h
  split at h
  · next hempty => exact ⟨[], [], .inl rfl, .inl rfl, hempty⟩
  split at h
  · cases h
  next keylen tail hkeylen =>
    -- where the key length is left out, its field is empty
    obtain ⟨keylenField, hfield, hinput⟩ := of_pkcs5GetKeylen hkeylen
    split at h
    · next hempty => exact ⟨keylenField, [], hfield, .inl rfl, by rw [hinput, hempty]⟩
    split at h
    · cases h
    next prfOid last hprf =>
      obtain ⟨prfField, params, hprfField, hnull, htail⟩ := of_mbedtlsAsn1GetAlgNull hprf
      split at h
      · cases h
      split at h
      · cases h
      next hend =>
        rw [not_not.mp hend, List.append_nil] at htail
        exact ⟨keylenField, prfField, hfield, .inr ⟨_, params, hprfField, hnull⟩,
          by rw [hinput, htail]⟩

theorem of_pkcs5ParsePbkdf2Params {q : Pbkdf2Params}
    (h : pkcs5ParsePbkdf2Params params = .ok q) :
    params.tag = asn1ConstructedSequence ∧ IsPbkdf2Params params.p := by
  unfold pkcs5ParsePbkdf2Params at h
  split at h
  · cases h
  next htag =>
    refine ⟨not_not.mp htag, ?_⟩
    split at h
    · cases h
    next salt tail hsalt =>
      split at h
      · cases h
      next count last hcount =>
        split at h
        · cases h
        next hoptional =>
          obtain ⟨saltField, hsaltField, hcontents⟩ := of_asn1GetContents hsalt
          obtain ⟨contents, countField, hcountField, htail, _⟩ := of_mbedtlsAsn1GetInt hcount
          obtain ⟨keylenField, prfField, hkeylen, hprf, hlast⟩ := of_pkcs5GetOptional hoptional
          refine ⟨salt, saltField, contents, countField, keylenField, prfField, hsaltField,
            hcountField, hkeylen, hprf, ?_⟩
          rw [hcontents, htail, hlast]
          simp only [List.append_assoc]

theorem of_pbes2ParseParams {pbeParams : MbedtlsAsn1Buf} {q : Pbes2Params}
    (h : pbes2ParseParams pbeParams = .ok q) :
    q.iv.length = 16 ∧
      ∃ contents rest, IsPbes2Params contents ∧ pbeParams.p = contents ++ rest := by
  unfold pbes2ParseParams at h
  split at h
  · cases h
  split at h
  · cases h
  next kdfOid kdfParams tail hkdf =>
    split at h
    · cases h
    next hoid =>
      split at h
      · cases h
      next hpbkdf2 =>
        split at h
        · cases h
        next encOid encParams rest henc =>
          split at h
          · cases h
          split at h
          · cases h
          next hiv =>
            cases h
            rw [not_or, not_not, not_not] at hiv
            obtain ⟨kdfField, hkdfField, hcontents⟩ := of_mbedtlsAsn1GetAlg hkdf
            obtain ⟨encField, hencField, htail⟩ := of_mbedtlsAsn1GetAlg henc
            obtain ⟨htag, hparams⟩ := of_pkcs5ParsePbkdf2Params hpbkdf2
            rw [not_not.mp hoid] at hkdfField
            -- `rest` is what the second call leaves; no branch above has looked at it
            refine ⟨hiv.2, kdfField ++ encField, rest, ⟨kdfParams, kdfField, encOid, encParams,
              encField, hkdfField, htag, hparams, hencField, hiv.1, rfl⟩, ?_⟩
            rw [hcontents, htail, List.append_assoc]

theorem IsAlgorithm.isElement {bytes : ByteString} (h : IsAlgorithm oid params bytes) :
    ∃ body, IsElement asn1ConstructedSequence body bytes := by
  obtain ⟨body, _, _, hbody, _⟩ := h
  exact ⟨body, hbody⟩

theorem IsPbes2Params.isTwoSequences {contents : ByteString} (h : IsPbes2Params contents) :
    IsTwoSequences contents := by
  obtain ⟨kdfParams, kdfField, encOid, encParams, encField, hkdf, _, _, henc, _, rfl⟩ := h
  obtain ⟨first, hfirst⟩ := hkdf.isElement
  obtain ⟨second, hsecond⟩ := henc.isElement
  exact ⟨first, kdfField, second, encField, hfirst, hsecond, rfl⟩

theorem IsTwoSequences.nil_of_append {contents : ByteString} (h : IsTwoSequences contents)
    (h' : IsTwoSequences (contents ++ rest)) : rest = [] := by
  obtain ⟨_, first, _, second, hfirst, hsecond, rfl⟩ := h
  obtain ⟨_, first', _, second', hfirst', hsecond', heq⟩ := h'
  rw [List.append_assoc] at heq
  have htail := isElement_unique hfirst hfirst' heq
  rw [← List.append_nil second'] at htail
  exact isElement_unique hsecond hsecond' htail

theorem isPbes2Params_iff {pbeParams : MbedtlsAsn1Buf} {q : Pbes2Params}
    (h : pbes2ParseParams pbeParams = .ok q) :
    IsPbes2Params pbeParams.p ↔ IsTwoSequences pbeParams.p := by
  constructor
  · exact IsPbes2Params.isTwoSequences
  intro htwo
  obtain ⟨_, contents, rest, hcontents, heq⟩ := of_pbes2ParseParams h
  rw [heq] at htwo ⊢
  rw [hcontents.isTwoSequences.nil_of_append htwo, List.append_nil]
  exact hcontents

/-! ## The cipher text and back -/

def Pkcs5Env.Reliable (env : Pkcs5Env) : Prop := env.mdSetup = true ∧ env.cipherSetup = true

def paddedLength (n : Nat) : Nat := n + (16 - n % 16)

/-- `mbedtls_pkcs5_pbes2_ext` succeeds with these parameters on some input. -/
def Accepted (P : Pkcs5Platform) (pbeParams : MbedtlsAsn1Buf) : Prop :=
  ∃ env mode pwd data outputSize outputLen,
    (mbedtlsPkcs5Pbes2Ext P env pbeParams mode pwd data outputSize outputLen).ret = none

/-- Data that fits in memory with its padding is encrypted if `output` has room, and a decryption
with the same password undoes it. -/
def RoundTrips (P : Pkcs5Platform) (pbeParams : MbedtlsAsn1Buf) : Prop :=
  ∀ (env env' : Pkcs5Env) (pwd data : ByteString) (outputSize outputLen : Nat),
    env.Reliable → env'.Reliable → data.length + 16 ≤ P.sizeMax →
    paddedLength data.length ≤ outputSize →
    let enc := mbedtlsPkcs5Pbes2Ext P env pbeParams mbedtlsPkcs5Encrypt pwd data outputSize
      outputLen
    enc.ret = none ∧ enc.output.length = enc.outputLen ∧ enc.outputLen = paddedLength data.length ∧
      ∀ outputSize' outputLen', enc.outputLen ≤ outputSize' →
        let dec := mbedtlsPkcs5Pbes2Ext P env' pbeParams mbedtlsPkcs5Decrypt pwd enc.output
          outputSize' outputLen'
        dec.ret = none ∧ dec.outputLen = data.length ∧ dec.output.take dec.outputLen = data

/-- A call writes at most `output_size` bytes, and none where they are too few for the data, in an
encryption with its padding. -/
def SizeChecked (P : Pkcs5Platform) (pbeParams : MbedtlsAsn1Buf) : Prop :=
  ∀ (env : Pkcs5Env) (mode : Int) (pwd data : ByteString) (outputSize outputLen : Nat),
    data.length + 16 ≤ P.sizeMax →
    let r := mbedtlsPkcs5Pbes2Ext P env pbeParams mode pwd data outputSize outputLen
    r.output.length ≤ outputSize ∧
      ((mode = mbedtlsPkcs5Decrypt ∧ outputSize < data.length) ∨
          (mode = mbedtlsPkcs5Encrypt ∧ outputSize < paddedLength data.length) →
        r = { ret := some .bufTooSmall, output := [], outputLen := outputLen })

variable {P : Pkcs5Platform} {env : Pkcs5Env} {pbeParams : MbedtlsAsn1Buf} {q : Pbes2Params}
  {pwd data iv key : ByteString} {mode : Int} {outputSize outputLen : Nat}

theorem paddedLength_eq (n : Nat) : paddedLength n = (n / 16 + 1) * 16 := by
  unfold paddedLength
  omega

variable (mode outputSize) in
theorem outputTooSmall_iff (h : data.length + 16 ≤ P.sizeMax) :
    outputTooSmall P mode data.length outputSize ↔
      (mode = mbedtlsPkcs5Decrypt ∧ outputSize < data.length) ∨
        (mode = mbedtlsPkcs5Encrypt ∧ outputSize < paddedLength data.length) := by
  have hsum : (data.length + (16 - data.length % 16)) % (P.sizeMax + 1)
      = paddedLength data.length := by
    rw [Nat.mod_eq_of_lt (by omega)]
    rfl
  unfold outputTooSmall
  rw [hsum]

def pbes2Key (P : Pkcs5Platform) (q : Pbes2Params) (pwd : ByteString) : ByteString :=
  pkcs5Pbkdf2Hmac (P.hmac q.pbkdf2.mdType) pwd q.pbkdf2.salt q.pbkdf2.iterations
    (mbedtlsCipherInfoGetKeyBitlen q.cipherAlg / 8)

variable (pwd outputLen) in
theorem mbedtlsPkcs5Pbes2Ext_eq (hq : pbes2ParseParams pbeParams = .ok q) (henv : env.Reliable)
    (hsize : ¬ outputTooSmall P mode data.length outputSize) :
    mbedtlsPkcs5Pbes2Ext P env pbeParams mode pwd data outputSize outputLen
      = pbes2Crypt P env mode (pbes2Key P q pwd) q.iv data outputLen := by
  have hkdf : mbedtlsPkcs5Pbkdf2HmacExt P env q.pbkdf2.mdType pwd q.pbkdf2.salt
      q.pbkdf2.iterations (mbedtlsCipherInfoGetKeyBitlen q.cipherAlg / 8)
      = .ok (pbes2Key P q pwd) := by
    unfold mbedtlsPkcs5Pbkdf2HmacExt
    rw [if_neg (by simp [henv.1])]
    rfl
  unfold mbedtlsPkcs5Pbes2Ext
  simp only [hq, hkdf, if_neg hsize]

theorem pbes2Crypt_encrypt (henv : env.Reliable) (hiv : iv.length = 16) :
    pbes2Crypt P env mbedtlsPkcs5Encrypt key iv data outputLen
      = { ret := none
          output := (Cbc.encrypt 16 (P.aes.encrypt key) (data.length / 16 + 1) iv
            (pkcsPadded data)).1
          outputLen := paddedLength data.length } := by
  have hmode : cipherOperation mbedtlsPkcs5Encrypt = .ok .encrypt := rfl
  unfold pbes2Crypt
  rw [if_neg (by simp [henv.2])]
  simp only [hmode]
  rw [mbedtlsCipherCrypt_encrypt rfl rfl hiv, paddedLength_eq]
  rfl

theorem pbes2Crypt_decrypt (henv : env.Reliable) (hiv : iv.length = 16) :
    pbes2Crypt P env mbedtlsPkcs5Decrypt key iv
        (Cbc.encrypt 16 (P.aes.encrypt key) (data.length / 16 + 1) iv (pkcsPadded data)).1 outputLen
      = { ret := none, output := pkcsPadded data, outputLen := data.length } := by
  have hmode : cipherOperation mbedtlsPkcs5Decrypt = .ok .decrypt := rfl
  have hcrypt : mbedtlsCipherCrypt P.aes ⟨.decrypt, key, true, [], []⟩ iv
      (Cbc.encrypt 16 (P.aes.encrypt key) (data.length / 16 + 1) iv (pkcsPadded data)).1 outputLen
      = { ret := none, output := pkcsPadded data, olen := data.length } :=
    mbedtlsCipherCrypt_decrypt rfl rfl hiv data outputLen
  unfold pbes2Crypt
  rw [if_neg (by simp [henv.2])]
  simp only [hmode]
  rw [hcrypt]
  rfl

theorem take_pkcsPadded (data : ByteString) : (pkcsPadded data).take data.length = data := by
  have hsplit := List.take_append_drop (data.length / 16 * 16) data
  rw [pkcsPadded, addPkcsPadding, ← List.append_assoc, hsplit, List.take_left]

theorem roundTrips (hq : pbes2ParseParams pbeParams = .ok q) : RoundTrips P pbeParams := by
  intro env env' pwd data outputSize outputLen henv henv' hmax hroom
  have hiv := (of_pbes2ParseParams hq).1
  have hsize : ¬ outputTooSmall P mbedtlsPkcs5Encrypt data.length outputSize := by
    rw [outputTooSmall_iff _ _ hmax]
    rintro (⟨hmode, _⟩ | ⟨_, hlt⟩)
    · exact absurd hmode (by decide)
    · omega
  have hlen := Cbc.length_encrypt (P.aes.length_encrypt (pbes2Key P q pwd)) hiv
    (length_pkcsPadded data)
  have hpadded := paddedLength_eq data.length
  have henc := mbedtlsPkcs5Pbes2Ext_eq pwd outputLen hq henv hsize
  rw [pbes2Crypt_encrypt henv hiv] at henc
  simp only [henc]
  refine ⟨trivial, by rw [hlen.1, hpadded], trivial, ?_⟩
  intro outputSize' outputLen' hroom'
  -- a decryption is given as many bytes as the encryption has written
  have hsize' : ¬ outputTooSmall P mbedtlsPkcs5Decrypt
      (Cbc.encrypt 16 (P.aes.encrypt (pbes2Key P q pwd)) (data.length / 16 + 1) q.iv
        (pkcsPadded data)).1.length outputSize' := by
    rw [hlen.1]
    rintro (⟨_, hlt⟩ | ⟨hmode, _⟩)
    · omega
    · exact absurd hmode (by decide)
  rw [mbedtlsPkcs5Pbes2Ext_eq pwd outputLen' hq henv' hsize', pbes2Crypt_decrypt henv' hiv]
  exact ⟨rfl, rfl, take_pkcsPadded data⟩

theorem length_pbes2Crypt (hiv : iv.length = 16) :
    (pbes2Crypt P env mode key iv data outputLen).output.length ≤
      if mode = mbedtlsPkcs5Encrypt then paddedLength data.length
      else if mode = mbedtlsPkcs5Decrypt then data.length else 0 := by
  unfold pbes2Crypt cipherOperation
  split
  · exact Nat.zero_le _
  by_cases henc : mode = mbedtlsPkcs5Encrypt
  · have hlen := Cbc.length_encrypt (P.aes.length_encrypt key) hiv (length_pkcsPadded data)
    simp only [if_pos henc]
    rw [mbedtlsCipherCrypt_encrypt rfl rfl hiv, hlen.1, paddedLength_eq]
  by_cases hdec : mode = mbedtlsPkcs5Decrypt
  · simp only [if_neg henc, if_pos hdec]
    exact length_mbedtlsCipherCrypt_decrypt rfl rfl hiv data outputLen
  · simp only [if_neg henc, if_neg hdec]
    exact Nat.le_refl 0

theorem sizeChecked (hq : pbes2ParseParams pbeParams = .ok q) : SizeChecked P pbeParams := by
  intro env mode pwd data outputSize outputLen hmax
  have hiv := (of_pbes2ParseParams hq).1
  have hsmall := outputTooSmall_iff mode outputSize hmax
  unfold mbedtlsPkcs5Pbes2Ext
  simp only [hq, ← hsmall]
  split
  · exact ⟨Nat.zero_le _, fun _ => rfl⟩
  next hroom =>
    refine ⟨?_, fun h => absurd h hroom⟩
    rw [hsmall] at hroom
    split
    · exact Nat.zero_le _
    next key _ =>
      refine (length_pbes2Crypt hiv).trans ?_
      split
      · next henc =>
        by_contra hgt
        exact hroom (.inr ⟨henc, by omega⟩)
      split
      · next hdec =>
        by_contra hgt
        exact hroom (.inl ⟨hdec, by omega⟩)
      · exact Nat.zero_le _

/-! ## The contract -/

structure Pbes2Contract (P : Pkcs5Platform) (pbeParams : MbedtlsAsn1Buf) : Prop where
  rfc8018 : ∀ (H : HmacFunction) (password salt : ByteString) (iterationCount keyLength : Nat),
    pkcs5Pbkdf2Hmac H password salt iterationCount keyLength
      = rfc8018Pbkdf2 H password salt iterationCount keyLength
  psa : ∀ (H : HmacFunction) (K : KdfPlatform) (alg : PsaAlgorithm) (password salt : ByteString)
    (iterationCount : Nat) (started : PsaKeyDerivationOperation) (ins outs : List KdfEvent),
    H.hmac = K.hmac (psaAlgKdfGetHash (kdfAlgOf alg)) →
    Pbkdf2HmacReading K alg password salt iterationCount started ins outs →
    given outs = pkcs5Pbkdf2Hmac H password salt iterationCount (requested outs)
  roundTrips : RoundTrips P pbeParams
  sizeChecked : SizeChecked P pbeParams
  consumed : IsPbes2Params pbeParams.p

theorem Accepted.parsed (h : Accepted P pbeParams) : ∃ q, pbes2ParseParams pbeParams = .ok q := by
  obtain ⟨env, mode, pwd, data, outputSize, outputLen, hret⟩ := h
  unfold mbedtlsPkcs5Pbes2Ext at hret
  cases hq : pbes2ParseParams pbeParams with
  | error e =>
    rw [hq] at hret
    cases hret
  | ok q => exact ⟨q, rfl⟩

theorem accepted_of_parsed (hmax : 16 ≤ P.sizeMax) (hq : pbes2ParseParams pbeParams = .ok q) :
    Accepted P pbeParams := by
  have henv : Pkcs5Env.Reliable { mdSetup := true, cipherSetup := true } := ⟨rfl, rfl⟩
  have henc := roundTrips (P := P) hq _ _ [] [] 16 0 henv henv (by simpa using hmax) (by decide)
  exact ⟨_, _, _, _, _, _, henc.1⟩

/-- **Trailing bytes.** With accepted parameters the contract is met if and only if nothing follows
the two SEQUENCEs in PBES2-params. -/
theorem pbes2_contract_iff (h : Accepted P pbeParams) :
    Pbes2Contract P pbeParams ↔ IsTwoSequences pbeParams.p := by
  obtain ⟨q, hq⟩ := h.parsed
  constructor
  · intro hcontract
    exact (isPbes2Params_iff hq).mp hcontract.consumed
  intro htwo
  exact {
    rfc8018 := fun _ => pkcs5Pbkdf2Hmac_rfc8018
    psa := fun _ _ _ _ _ _ _ _ _ hhmac hread => hread.given_eq hhmac
    roundTrips := roundTrips hq
    sizeChecked := sizeChecked hq
    consumed := (isPbes2Params_iff hq).mpr htwo }

def aes256Pbes2Params : ByteString :=
  [0x30, 0x1b, 0x06, 0x09, 0x2a, 0x86, 0x48, 0x86, 0xf7, 0x0d, 0x01, 0x05, 0x0c,
    0x30, 0x0e, 0x04, 0x08, 1, 2, 3, 4, 5, 6, 7, 8, 0x02, 0x02, 0x08, 0x00,
    0x30, 0x1d, 0x06, 0x09, 0x60, 0x86, 0x48, 0x01, 0x65, 0x03, 0x04, 0x01, 0x2a,
    0x04, 0x10, 0, 1, 2, 3, 4, 5, 6, 7, 8, 9, 10, 11, 12, 13, 14, 15]

def trivialPkcs5Platform : Pkcs5Platform where
  sizeMax := 2 ^ 64 - 1
  hmac := fun _ =>
    { size := 32
      hmac := fun _ _ => List.replicate 32 0
      size_pos := by decide
      length_hmac := fun _ _ => List.length_replicate }
  aes :=
    { encrypt := fun _ b => b
      decrypt := fun _ b => b
      length_encrypt := fun _ _ h => h
      length_decrypt := fun _ _ h => h
      decrypt_encrypt := fun _ _ _ => rfl }

def aes256Parsed : Pbes2Params :=
  { pbkdf2 := { salt := [1, 2, 3, 4, 5, 6, 7, 8], iterations := 2048, keylen := 0, mdType := .sha1 }
    cipherAlg := .aes256Cbc
    iv := [0, 1, 2, 3, 4, 5, 6, 7, 8, 9, 10, 11, 12, 13, 14, 15] }

theorem aes256_accepted (trailing : ByteString) (htrailing : trailing = [] ∨ trailing = [0]) :
    Accepted trivialPkcs5Platform
      { tag := asn1ConstructedSequence, p := aes256Pbes2Params ++ trailing } := by
  apply accepted_of_parsed (q := aes256Parsed)
  · decide
  · rcases htrailing with rfl | rfl
    · rfl
    · rfl

theorem pbes2_contract_iff_aes256 :
    Pbes2Contract trivialPkcs5Platform { tag := asn1ConstructedSequence, p := aes256Pbes2Params } ↔
      IsTwoSequences aes256Pbes2Params :=
  pbes2_contract_iff (aes256_accepted [] (.inl rfl))

theorem isTwoSequences_aes256 : IsTwoSequences aes256Pbes2Params := by
  refine ⟨(aes256Pbes2Params.take 29).drop 2, aes256Pbes2Params.take 29, aes256Pbes2Params.drop 31,
    aes256Pbes2Params.drop 29, ?_, ?_, rfl⟩
  · exact ⟨_, .short (by decide), rfl⟩
  · exact ⟨_, .short (by decide), rfl⟩

/-- **Counterexample.** A byte after the encryption scheme. -/
theorem pbes2_trailing_byte_accepted :
    ¬ ∀ (P : Pkcs5Platform) (pbeParams : MbedtlsAsn1Buf),
      Accepted P pbeParams → Pbes2Contract P pbeParams := by
  intro h
  have hcontract := h _ _ (aes256_accepted [0] (.inr rfl))
  -- the contract leaves no room for the last byte
  have htwo := hcontract.consumed.isTwoSequences
  exact absurd (isTwoSequences_aes256.nil_of_append htwo) (by decide)

end TfPsaCrypto.Pkcs5
