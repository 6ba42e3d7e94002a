import TfPsaCrypto.Builtin.RsaEncryptRoundTrip
import TfPsaCrypto.Library.Der

/-!
# RSASSA-PKCS1-v1_5

`rsa_rsassa_pkcs1_v15_encode` with `mbedtls_rsa_rsassa_pkcs1_v15_sign` and
`mbedtls_rsa_rsassa_pkcs1_v15_verify`, for pointers that are not null. The RSA operations are
parameters, so that one of them may also give a wrong result.
-/

namespace TfPsaCrypto.RsaV15

open Bytes

/-! ## The encoding -/

/-- The table `oid_md_alg`. -/
def oidMdAlg : MbedtlsMdType → Option ByteString
  | .none => none
  | .md5 => some [0x2a, 0x86, 0x48, 0x86, 0xf7, 0x0d, 0x02, 0x05]
  | .ripemd160 => some [0x2b, 0x24, 0x03, 0x02, 0x01]
  | .sha1 => some [0x2b, 0x0e, 0x03, 0x02, 0x1a]
  | .sha224 => some [0x60, 0x86, 0x48, 0x01, 0x65, 0x03, 0x04, 0x02, 0x04]
  | .sha256 => some [0x60, 0x86, 0x48, 0x01, 0x65, 0x03, 0x04, 0x02, 0x01]
  | .sha384 => some [0x60, 0x86, 0x48, 0x01, 0x65, 0x03, 0x04, 0x02, 0x02]
  | .sha512 => some [0x60, 0x86, 0x48, 0x01, 0x65, 0x03, 0x04, 0x02, 0x03]
  | .sha3_224 => some [0x60, 0x86, 0x48, 0x01, 0x65, 0x03, 0x04, 0x02, 0x07]
  | .sha3_256 => some [0x60, 0x86, 0x48, 0x01, 0x65, 0x03, 0x04, 0x02, 0x08]
  | .sha3_384 => some [0x60, 0x86, 0x48, 0x01, 0x65, 0x03, 0x04, 0x02, 0x09]
  | .sha3_512 => some [0x60, 0x86, 0x48, 0x01, 0x65, 0x03, 0x04, 0x02, 0x0a]

variable (h : MdFunctions) (mdAlg : MbedtlsMdType) (hash : ByteString)

/-- The table has an entry where there is the hash function. -/
def mbedtlsOidGetOidByMd : Option ByteString := if h.supported mdAlg then oidMdAlg mdAlg else none

/-- The OID, and `nb_pad` where the encoded hash fits; `hashlen` is an `unsigned int`. -/
def v15NbPad (hashlen dstLen : Nat) : Option (ByteString × Nat) :=
  if mdAlg ≠ .none then
    let mdSize := h.size mdAlg
    if mdSize = 0 then none
    else
      match mbedtlsOidGetOidByMd h mdAlg with
      | none => none
      | some oid =>
        if hashlen ≠ mdSize then none
        -- the length has to be one byte, and the sums must not overflow
        else if (8 + hashlen) % 2 ^ 32 + oid.length ≥ 0x80 ∨ (10 + hashlen) % 2 ^ 32 < hashlen ∨
            ((10 + hashlen) % 2 ^ 32 + oid.length) % 2 ^ 64 < (10 + hashlen) % 2 ^ 32 then none
        else if dstLen < (10 + hashlen) % 2 ^ 32 + oid.length then none
        else some (oid, dstLen - ((10 + hashlen) % 2 ^ 32 + oid.length))
  else if dstLen < hashlen then none
  else some ([], dstLen - hashlen)

/-- The error if there is one, and the bytes at `dst`. -/
def rsaRsassaPkcs1V15Encode (dst : ByteString) : Option RsaError × ByteString :=
  match v15NbPad h mdAlg hash.length dst.length with
  | none => (some .badInputData, dst)
  | some (oid, nbPad) =>
    -- the header and the delimiter, and eight bytes for the padding
    if nbPad < 3 + 8 then (some .badInputData, dst)
    else
      let head := [0x00, 0x01] ++ List.replicate (nbPad - 3) 0xFF ++ [0x00]
      if mdAlg = .none then (none, storeAt dst 0 (head ++ hash))
      else
        let written := head ++
          [0x30, UInt8.ofNat (0x08 + oid.length + hash.length),
            0x30, UInt8.ofNat (0x04 + oid.length), 0x06, UInt8.ofNat oid.length] ++ oid ++
          [0x05, 0x00, 0x04, UInt8.ofNat hash.length] ++ hash
        if written.length ≠ dst.length then
          (some .badInputData, List.replicate dst.length 0)
        else (none, storeAt dst 0 written)

/-! ## Signing and verifying -/

inductive V15Error where
  | rsa (e : RsaError)
  | allocFailed
  deriving DecidableEq, Repr

section Operations

variable (ctx : MbedtlsRsaContext)
  (rsaPrivate rsaPublic : ByteString → Except RsaError ByteString) (calloc₁ calloc₂ : Bool)

def marked : ByteString := List.replicate ctx.len 0x21

/-- The error if there is one, and the bytes at `sig`. -/
def mbedtlsRsaRsassaPkcs1V15Sign (sig : ByteString) : Option V15Error × ByteString :=
  if ctx.padding ≠ .v15 then (some (.rsa .badInputData), sig)
  else
    match rsaRsassaPkcs1V15Encode h mdAlg hash sig with
    | (some e, sig) => (some (.rsa e), sig)
    | (none, sig) =>
      if ¬ calloc₁ then (some .allocFailed, sig)
      else if ¬ calloc₂ then (some .allocFailed, sig)
      else
        match rsaPrivate sig with
        | .error e => (some (.rsa e), marked ctx)
        | .ok sigTry =>
          match rsaPublic sigTry with
          | .error e => (some (.rsa e), marked ctx)
          | .ok verif =>
            if mbedtlsCtMemcmp verif sig ≠ 0 then (some (.rsa .privateFailed), marked ctx)
            else (none, storeAt sig 0 sigTry)

/-- The error if there is one. -/
def mbedtlsRsaRsassaPkcs1V15Verify (sig : ByteString) : Option V15Error :=
  if ¬ calloc₁ ∨ ¬ calloc₂ then some .allocFailed
  else
    match rsaRsassaPkcs1V15Encode h mdAlg hash (List.replicate ctx.len 0) with
    | (some e, _) => some (.rsa e)
    | (none, encodedExpected) =>
      match rsaPublic sig with
      | .error e => some (.rsa e)
      | .ok encoded =>
        if mbedtlsCtMemcmp encoded encodedExpected ≠ 0 then some (.rsa .verifyFailed)
        else none

end Operations

/-! ## EMSA-PKCS1-v1_5 -/

def digestInfo (oid : ByteString) : ByteString :=
  Der.element 0x30
    (Der.element 0x30 (Der.element 0x06 oid ++ Der.element 0x05 []) ++ Der.element 0x04 hash)

/-- The data behind the padding: the raw hash, or its `DigestInfo`. -/
def payload : ByteString :=
  match oidMdAlg mdAlg with
  | none => hash
  | some oid => digestInfo hash oid

/-- `em` is the encoding of `len` bytes: at least eight bytes `FF` in front of the payload. -/
def IsEncoding (len : Nat) (em : ByteString) : Prop :=
  (mdAlg ≠ .none → h.size mdAlg ≠ 0 ∧ hash.length = h.size mdAlg) ∧
    ∃ k, 8 ≤ k ∧ em = [0x00, 0x01] ++ List.replicate k 0xFF ++ [0x00] ++ payload mdAlg hash ∧
      em.length = len

/-! ## What is encoded -/

section Encoding

variable {h mdAlg hash} {dst em em' : ByteString} {len : Nat}

theorem IsEncoding.unique (hem : IsEncoding h mdAlg hash len em)
    (hem' : IsEncoding h mdAlg hash len em') : em = em' := by
  obtain ⟨_, k, _, hshape, hlen⟩ := hem
  obtain ⟨_, k', _, hshape', hlen'⟩ := hem'
  have hk : k = k' := by
    rw [hshape] at hlen
    rw [hshape'] at hlen'
    simp only [List.length_append, List.length_replicate] at hlen hlen'
    omega
  rw [hshape, hshape', hk]

theorem storeAt_zero_of_length {x : ByteString} (hx : x.length = dst.length) :
    storeAt dst 0 x = x := by
  unfold storeAt
  rw [Nat.zero_add, hx, List.drop_length, List.take_zero, List.nil_append, List.append_nil]

theorem digestInfo_eq {oid : ByteString} (hlen : 8 + hash.length + oid.length < 0x80) :
    digestInfo hash oid =
      [0x30, UInt8.ofNat (0x08 + oid.length + hash.length),
        0x30, UInt8.ofNat (0x04 + oid.length), 0x06, UInt8.ofNat oid.length] ++ oid ++
      [0x05, 0x00, 0x04, UInt8.ofNat hash.length] ++ hash := by
  have helement : ∀ (tag : UInt8) {contents : ByteString}, contents.length < 0x80 →
      Der.element tag contents = tag :: UInt8.ofNat contents.length :: contents := by
    intro tag contents hlt
    rw [Der.element, Der.lengthBytes, if_pos hlt]
    rfl
  have halg : (0x06 :: UInt8.ofNat oid.length :: oid ++ [0x05, 0x00]).length =
      0x04 + oid.length := by
    simp only [List.length_append, List.length_cons, List.length_nil]
    omega
  have hinfo : (0x30 :: UInt8.ofNat (0x04 + oid.length) ::
      (0x06 :: UInt8.ofNat oid.length :: oid ++ [0x05, 0x00]) ++
        0x04 :: UInt8.ofNat hash.length :: hash).length = 0x08 + oid.length + hash.length := by
    simp only [List.length_append, List.length_cons, List.length_nil]
    omega
  have hnull : Der.element 0x05 [] = [0x05, 0x00] := helement 0x05 (by decide)
  have hinner : Der.element 0x30 (0x06 :: UInt8.ofNat oid.length :: oid ++ [0x05, 0x00]) =
      0x30 :: UInt8.ofNat (0x04 + oid.length) ::
        (0x06 :: UInt8.ofNat oid.length :: oid ++ [0x05, 0x00]) := by
    rw [helement 0x30 (by rw [halg]; omega), halg]
  rw [digestInfo, helement 0x06 (by omega), hnull, helement 0x04 (by omega), hinner,
    helement 0x30 (by rw [hinfo]; omega), hinfo]
  simp only [List.append_assoc, List.cons_append, List.nil_append]

theorem v15NbPad_hash (hsize : h.size mdAlg ≠ 0) (hlen : hash.length = h.size mdAlg)
    (dstLen : Nat) :
    ∃ oid, oidMdAlg mdAlg = some oid ∧ 8 + hash.length + oid.length < 0x80 ∧
      v15NbPad h mdAlg hash.length dstLen =
        if dstLen < 10 + hash.length + oid.length then none
        else some (oid, dstLen - (10 + hash.length + oid.length)) := by
  obtain ⟨_, hle⟩ := MdFunctions.size_bounds hsize
  have hsupported : h.supported mdAlg = true := by
    by_contra hnot
    exact hsize (if_neg hnot)
  have hnone : mdAlg ≠ .none := by
    rintro rfl
    rw [MdFunctions.size_eq hsize] at hsize
    exact hsize rfl
  obtain ⟨oid, hoid, holen⟩ : ∃ oid, oidMdAlg mdAlg = some oid ∧ oid.length ≤ 9 := by
    cases mdAlg
    case none => exact absurd rfl hnone
    all_goals exact ⟨_, rfl, by decide⟩
  refine ⟨oid, hoid, by omega, ?_⟩
  have hten : (10 + hash.length) % 2 ^ 32 = 10 + hash.length := by omega
  unfold v15NbPad mbedtlsOidGetOidByMd
  rw [if_pos hnone]
  simp only [hsupported, if_true, hoid, hten]
  rw [if_neg hsize, if_neg (fun hne => hne hlen), if_neg (by omega)]

theorem rsaRsassaPkcs1V15Encode_cases (h : MdFunctions) (mdAlg : MbedtlsMdType)
    (hash dst : ByteString) :
    (∃ em, IsEncoding h mdAlg hash dst.length em ∧
      rsaRsassaPkcs1V15Encode h mdAlg hash dst = (none, em)) ∨
    (∀ em, ¬ IsEncoding h mdAlg hash dst.length em) ∧
      rsaRsassaPkcs1V15Encode h mdAlg hash dst = (some .badInputData, dst) := by
  -- `t` is the payload, and `n` its length
  have hcompose : ∀ (t : ByteString) (nbPad : Nat), payload mdAlg hash = t → 11 ≤ nbPad →
      nbPad + t.length = dst.length →
      (mdAlg ≠ .none → h.size mdAlg ≠ 0 ∧ hash.length = h.size mdAlg) →
      IsEncoding h mdAlg hash dst.length
          ([0x00, 0x01] ++ List.replicate (nbPad - 3) 0xFF ++ [0x00] ++ t) ∧
        ([0x00, 0x01] ++ List.replicate (nbPad - 3) 0xFF ++ [0x00] ++ t).length = dst.length := by
    intro t nbPad ht hpad hsum hdigest
    have hlen : ([0x00, 0x01] ++ List.replicate (nbPad - 3) 0xFF ++ [0x00] ++ t).length =
        dst.length := by
      simp only [List.length_append, List.length_replicate, List.length_cons, List.length_nil]
      omega
    exact ⟨⟨hdigest, nbPad - 3, by omega, by rw [ht], hlen⟩, hlen⟩
  have hshort : dst.length < (payload mdAlg hash).length + 11 →
      ∀ em, ¬ IsEncoding h mdAlg hash dst.length em := by
    rintro hlt em ⟨_, k, hk, hshape, hlen⟩
    rw [hshape] at hlen
    simp only [List.length_append, List.length_replicate, List.length_cons, List.length_nil] at hlen
    omega
  unfold rsaRsassaPkcs1V15Encode
  by_cases hnone : mdAlg = .none
  · subst hnone
    have hraw : payload .none hash = hash := rfl
    rw [hraw] at hshort
    have hpad : v15NbPad h .none hash.length dst.length =
        if dst.length < hash.length then none else some ([], dst.length - hash.length) :=
      if_neg (fun hne => hne rfl)
    rw [hpad]
    by_cases hfits : dst.length < hash.length
    · rw [if_pos hfits]
      exact .inr ⟨hshort (by omega), rfl⟩
    rw [if_neg hfits]
    simp only
    by_cases hroom : dst.length - hash.length < 3 + 8
    · rw [if_pos hroom]
      exact .inr ⟨hshort (by omega), rfl⟩
    · obtain ⟨hencoding, hlen⟩ := hcompose hash (dst.length - hash.length) hraw (by omega)
        (by omega) (fun hne => absurd rfl hne)
      rw [if_neg hroom, if_pos trivial]
      exact .inl ⟨_, hencoding, congrArg _ (storeAt_zero_of_length hlen)⟩
  · by_cases hdigest : h.size mdAlg ≠ 0 ∧ hash.length = h.size mdAlg
    · obtain ⟨oid, hoid, hsmall, hpad⟩ := v15NbPad_hash hdigest.1 hdigest.2 dst.length
      have hinfo : payload mdAlg hash = digestInfo hash oid := by
        unfold payload
        rw [hoid]
      have hbytes := digestInfo_eq hsmall
      have htlen : (digestInfo hash oid).length = 10 + hash.length + oid.length := by
        rw [hbytes]
        simp only [List.length_append, List.length_cons, List.length_nil]
        omega
      rw [hinfo, htlen] at hshort
      rw [hpad]
      by_cases hfits : dst.length < 10 + hash.length + oid.length
      · rw [if_pos hfits]
        exact .inr ⟨hshort (by omega), rfl⟩
      rw [if_neg hfits]
      simp only
      by_cases hroom : dst.length - (10 + hash.length + oid.length) < 3 + 8
      · rw [if_pos hroom]
        exact .inr ⟨hshort (by omega), rfl⟩
      obtain ⟨hencoding, hlen⟩ := hcompose (digestInfo hash oid)
        (dst.length - (10 + hash.length + oid.length)) hinfo (by omega) (by omega)
        (fun _ => hdigest)
      rw [hbytes] at hencoding hlen
      simp only [List.append_assoc] at hencoding hlen ⊢
      rw [if_neg hroom, if_neg hnone, if_neg (fun hne => hne hlen)]
      exact .inl ⟨_, hencoding, congrArg _ (storeAt_zero_of_length hlen)⟩
    · have hpad : v15NbPad h mdAlg hash.length dst.length = none := by
        unfold v15NbPad
        rw [if_pos hnone]
        by_cases hzero : h.size mdAlg = 0
        · rw [if_pos hzero]
        · rw [if_neg hzero]
          cases mbedtlsOidGetOidByMd h mdAlg with
          | none => rfl
          | some oid => exact if_pos (fun heq => hdigest ⟨hzero, heq⟩)
      rw [hpad]
      exact .inr ⟨fun em hem => hdigest (hem.1 hnone), rfl⟩

end Encoding

/-! ## Signatures -/

theorem length_mbedtlsRsaPublic {ctx : MbedtlsRsaContext} {input buf : ByteString}
    (hpublic : mbedtlsRsaPublic ctx input = .ok buf) : buf.length = ctx.len := by
  unfold mbedtlsRsaPublic at hpublic
  split at hpublic
  · cases hpublic
  simp only at hpublic
  split at hpublic
  · cases hpublic
  · cases hpublic
    exact length_toBE _ _

section Signatures

variable {h : MdFunctions} {mdAlg : MbedtlsMdType} {hash sig sig' em : ByteString}
  {ctx : MbedtlsRsaContext}

theorem verify_iff : mbedtlsRsaRsassaPkcs1V15Verify h mdAlg hash ctx (mbedtlsRsaPublic ctx)
      true true sig = none ↔
    ∃ em, IsEncoding h mdAlg hash ctx.len em ∧ mbedtlsRsaPublic ctx sig = .ok em := by
  unfold mbedtlsRsaRsassaPkcs1V15Verify
  rw [if_neg (by decide)]
  have hcases := rsaRsassaPkcs1V15Encode_cases h mdAlg hash (List.replicate ctx.len 0)
  rw [List.length_replicate] at hcases
  rcases hcases with ⟨em, hem, hencode⟩ | ⟨hno, hencode⟩
  · rw [hencode]
    rcases hpublic : mbedtlsRsaPublic ctx sig with e | encoded
    · constructor
      · rintro ⟨⟩
      · rintro ⟨_, _, ⟨⟩⟩
    have hlen : encoded.length = em.length := by
      obtain ⟨_, _, _, _, hemlen⟩ := hem
      rw [length_mbedtlsRsaPublic hpublic, hemlen]
    have hcompare := memcmp_ne_iff hlen
    by_cases hsame : encoded = em
    · refine iff_of_true (if_neg (fun hne => hcompare.mp hne hsame)) ⟨em, hem, ?_⟩
      rw [hsame]
    refine iff_of_false ?_ ?_
    · show ¬ (if _ then _ else _) = _
      rw [if_pos (hcompare.mpr hsame)]
      exact Option.some_ne_none _
    · rintro ⟨em', hem', hok⟩
      cases hok
      exact hsame (hem'.unique hem)
  · rw [hencode]
    constructor
    · rintro ⟨⟩
    · rintro ⟨em, hem, _⟩
      exact absurd hem (hno em)

theorem of_sign {c₁ c₂ : Bool} (hlen : sig.length = ctx.len)
    (hsign : mbedtlsRsaRsassaPkcs1V15Sign h mdAlg hash ctx (mbedtlsRsaPrivate ctx)
      (mbedtlsRsaPublic ctx) c₁ c₂ sig = (none, sig')) :
    ∃ em, IsEncoding h mdAlg hash ctx.len em ∧ mbedtlsRsaPublic ctx sig' = .ok em := by
  unfold mbedtlsRsaRsassaPkcs1V15Sign at hsign
  split at hsign
  · cases hsign
  have hcases := rsaRsassaPkcs1V15Encode_cases h mdAlg hash sig
  rcases hcases with ⟨em, hem, hencode⟩ | ⟨_, hencode⟩
  · rw [hlen] at hem
    rw [hencode] at hsign
    simp only at hsign
    split at hsign
    · cases hsign
    split at hsign
    · cases hsign
    obtain ⟨_, _, _, _, hemlen⟩ := id hem
    rcases hprivate : mbedtlsRsaPrivate ctx em with e | sigTry
    · rw [hprivate] at hsign
      cases hsign
    have hpublic := mbedtlsRsaPublic_private hemlen hprivate
    have hstore : storeAt em 0 sigTry = sigTry :=
      storeAt_zero_of_length ((length_mbedtlsRsaPrivate hprivate).trans hemlen.symm)
    simp only [hprivate, hpublic, hstore] at hsign
    split at hsign
    · cases hsign
    · cases hsign
      exact ⟨em, hem, hpublic⟩
  · rw [hencode] at hsign
    cases hsign

theorem sign_of_private (hmode : ctx.padding = .v15) (hlen : sig.length = ctx.len)
    (hem : IsEncoding h mdAlg hash ctx.len em) (hprivate : mbedtlsRsaPrivate ctx em = .ok sig') :
    mbedtlsRsaRsassaPkcs1V15Sign h mdAlg hash ctx (mbedtlsRsaPrivate ctx) (mbedtlsRsaPublic ctx)
      true true sig = (none, sig') := by
  obtain ⟨_, _, _, _, hemlen⟩ := id hem
  have hpublic := mbedtlsRsaPublic_private hemlen hprivate
  have hsame := mt (@memcmp_ne_iff em em rfl).mp (fun hne => hne rfl)
  have hstore : storeAt em 0 sig' = sig' :=
    storeAt_zero_of_length ((length_mbedtlsRsaPrivate hprivate).trans hemlen.symm)
  have hencode : rsaRsassaPkcs1V15Encode h mdAlg hash sig = (none, em) := by
    rcases rsaRsassaPkcs1V15Encode_cases h mdAlg hash sig with ⟨em', hem', hencode⟩ | ⟨hno, _⟩
    · rw [hlen] at hem'
      rw [hencode, hem'.unique hem]
    · rw [hlen] at hno
      exact absurd hem (hno em)
  unfold mbedtlsRsaRsassaPkcs1V15Sign
  simp only [hmode, hencode, hprivate, hpublic, hstore]
  simp [hsame]

theorem sign_failed {rsaPrivate rsaPublic : ByteString → Except RsaError ByteString} {c₁ c₂ : Bool}
    {e : V15Error}
    (hsign : mbedtlsRsaRsassaPkcs1V15Sign h mdAlg hash ctx rsaPrivate rsaPublic c₁ c₂ sig =
      (some e, sig')) :
    sig' = sig ∨ IsEncoding h mdAlg hash sig.length sig' ∨ sig' = marked ctx := by
  unfold mbedtlsRsaRsassaPkcs1V15Sign at hsign
  split at hsign
  · cases hsign
    exact .inl rfl
  rcases rsaRsassaPkcs1V15Encode_cases h mdAlg hash sig with ⟨em, hem, hencode⟩ | ⟨_, hencode⟩
  · rw [hencode] at hsign
    simp only at hsign
    split at hsign
    · cases hsign
      exact .inr (.inl hem)
    split at hsign
    · cases hsign
      exact .inr (.inl hem)
    have hmarked : ∀ {r : Option V15Error × ByteString}, r = (some e, sig') → r.2 = marked ctx →
        sig' = sig ∨ IsEncoding h mdAlg hash sig.length sig' ∨ sig' = marked ctx := by
      rintro r rfl hr
      exact .inr (.inr hr)
    split at hsign
    · exact hmarked hsign rfl
    split at hsign
    · exact hmarked hsign rfl
    split at hsign
    · exact hmarked hsign rfl
    · cases hsign
  · rw [hencode] at hsign
    cases hsign
    exact .inl rfl

end Signatures

/-- There is one encoding, which the encoder gives or fails; a signature verifies, and exactly the
signatures of that encoding do; a failed signing leaves no part of a signature. -/
theorem rsassa_pkcs1_v15_one_encoding (h : MdFunctions) (mdAlg : MbedtlsMdType)
    (hash : ByteString) :
    (∀ dst, (∃ em, rsaRsassaPkcs1V15Encode h mdAlg hash dst = (none, em) ∧
        ∀ em', IsEncoding h mdAlg hash dst.length em' ↔ em' = em) ∨
      (∀ em, ¬ IsEncoding h mdAlg hash dst.length em) ∧
        rsaRsassaPkcs1V15Encode h mdAlg hash dst = (some .badInputData, dst)) ∧
    (∀ (ctx : MbedtlsRsaContext) (c₁ c₂ : Bool) (sig sig' : ByteString), sig.length = ctx.len →
      mbedtlsRsaRsassaPkcs1V15Sign h mdAlg hash ctx (mbedtlsRsaPrivate ctx) (mbedtlsRsaPublic ctx)
        c₁ c₂ sig = (none, sig') →
      mbedtlsRsaRsassaPkcs1V15Verify h mdAlg hash ctx (mbedtlsRsaPublic ctx) true true sig' =
        none) ∧
    (∀ (ctx : MbedtlsRsaContext) (sig em sig' : ByteString), ctx.padding = .v15 →
      sig.length = ctx.len → IsEncoding h mdAlg hash ctx.len em →
      mbedtlsRsaPrivate ctx em = .ok sig' →
      mbedtlsRsaRsassaPkcs1V15Sign h mdAlg hash ctx (mbedtlsRsaPrivate ctx) (mbedtlsRsaPublic ctx)
        true true sig = (none, sig')) ∧
    (∀ (ctx : MbedtlsRsaContext) (sig : ByteString),
      mbedtlsRsaRsassaPkcs1V15Verify h mdAlg hash ctx (mbedtlsRsaPublic ctx) true true sig = none ↔
        ∃ em, IsEncoding h mdAlg hash ctx.len em ∧ mbedtlsRsaPublic ctx sig = .ok em) ∧
    ∀ (ctx : MbedtlsRsaContext) (rsaPrivate rsaPublic : ByteString → Except RsaError ByteString)
      (c₁ c₂ : Bool) (sig sig' : ByteString) (e : V15Error),
      mbedtlsRsaRsassaPkcs1V15Sign h mdAlg hash ctx rsaPrivate rsaPublic c₁ c₂ sig =
        (some e, sig') →
      sig' = sig ∨ IsEncoding h mdAlg hash sig.length sig' ∨ sig' = marked ctx := by
  refine ⟨?_, ?_, ?_, ?_, ?_⟩
  · intro dst
    rcases rsaRsassaPkcs1V15Encode_cases h mdAlg hash dst with ⟨em, hem, hencode⟩ | hfailed
    · refine .inl ⟨em, hencode, fun em' => ⟨fun hem' => hem'.unique hem, ?_⟩⟩
      rintro rfl
      exact hem
    · exact .inr hfailed
  · intro ctx c₁ c₂ sig sig' hlen hsign
    exact verify_iff.mpr (of_sign hlen hsign)
  · intro ctx sig em sig' hmode hlen hem hprivate
    exact sign_of_private hmode hlen hem hprivate
  · intro ctx sig
    exact verify_iff
  · intro ctx rsaPrivate rsaPublic c₁ c₂ sig sig' e hsign
    exact sign_failed hsign

def noHashes : MdFunctions where
  supported := fun _ => false
  md := fun type _ => List.replicate (mdInfoSize type) 0
  length_md := zeroHashes.length_md

/-- Raw data of no bytes, under a key of 81 bits that leaves integers as they are. -/
theorem rsassa_pkcs1_v15_one_encoding_raw :
    mbedtlsRsaRsassaPkcs1V15Verify noHashes .none [] rsaKey81 (mbedtlsRsaPublic rsaKey81) true true
        ([0x00, 0x01] ++ List.replicate 8 0xFF ++ [0x00]) = none ∧
      mbedtlsRsaRsassaPkcs1V15Sign noHashes .none [] rsaKey81 (mbedtlsRsaPrivate rsaKey81)
          (mbedtlsRsaPublic rsaKey81) true true (List.replicate 11 7) =
        (none, [0x00, 0x01] ++ List.replicate 8 0xFF ++ [0x00]) ∧
      ((List.replicate 11 0x21 : ByteString) = List.replicate 11 7 ∨
        IsEncoding noHashes .none [] 11 (List.replicate 11 0x21) ∨
        List.replicate 11 0x21 = marked rsaKey81) :=
  ⟨(rsassa_pkcs1_v15_one_encoding noHashes .none []).2.1 rsaKey81 true true (List.replicate 11 7) _
      (by decide +kernel) (by decide +kernel),
    (rsassa_pkcs1_v15_one_encoding noHashes .none []).2.2.1 rsaKey81 (List.replicate 11 7)
      ([0x00, 0x01] ++ List.replicate 8 0xFF ++ [0x00]) _ rfl (by decide +kernel)
      ⟨fun hne => absurd rfl hne, 8, le_rfl, rfl, by decide +kernel⟩ (by decide +kernel),
    (rsassa_pkcs1_v15_one_encoding noHashes .none []).2.2.2.2 rsaKey81
      (fun _ => .error .privateFailed)
      (mbedtlsRsaPublic rsaKey81) true true (List.replicate 11 7) (List.replicate 11 0x21)
      (.rsa .privateFailed)
      (by decide +kernel)⟩

end TfPsaCrypto.RsaV15
