import TfPsaCrypto.Builtin.RsaDerWrite

/-!
# RSA keys survive their DER encoding

A key is read back unless an exponent of the CRT fills all limbs that the checks can divide: its
sign byte takes one limb more.
-/

namespace TfPsaCrypto.RsaDer

open Bytes Der Limbs
open RsaPrivate (Build mbedtlsMpiMaxSize)

variable {w : Nat}

/-! ## Reading what was written -/

variable {X DP DQ QP : MbedtlsMpi w}

theorem limbs_of_lt (hw : w = 32 ∨ w = 64) {v n : Nat} (h : v.size < w * n) :
    charsToLimbs w (integerBytes v).length ≤ n := by
  rw [length_integerBytes]
  rcases hw with rfl | rfl
  · have hbytes : ciL 32 = 4 := rfl
    rw [charsToLimbs_le_iff (by decide)]
    rw [hbytes]
    omega
  · have hbytes : ciL 64 = 8 := rfl
    rw [charsToLimbs_le_iff (by decide)]
    rw [hbytes]
    omega

theorem Writable.limbs (hw : w = 32 ∨ w = 64) (h : Writable X) :
    charsToLimbs w (integerBytes X.abs).length ≤ mbedtlsMpiMaxLimbs := by
  have hsize := h.size
  have hlimbs : mpiDivLimbs = 9998 := rfl
  have hmax : mbedtlsMpiMaxLimbs = 10000 := rfl
  apply limbs_of_lt hw
  rcases hw with rfl | rfl
  · omega
  · omega

theorem Writable.isElement (hw : w = 32 ∨ w = 64) (h : Writable X) :
    IsElement mbedtlsAsn1Integer (integerBytes X.abs) (derMpi X) :=
  isElement_element (Nat.lt_trans (h.length_derMpi hw).1 (by decide))

theorem importMpi_derMpi (hw : w = 32 ∨ w = 64) (isBigEndian : Bool) (h : Writable X)
    (hpos : 0 < X.abs) (Y : MbedtlsMpi w) (rsa : MbedtlsRsaContext w) (tail : ByteString)
    (k : ByteString → MbedtlsMpi w → RsaParsed w) :
    ∃ X' : MbedtlsMpi w, ReadFrom (integerBytes X.abs) X' ∧
      importMpi isBigEndian rsa (derMpi X ++ tail) Y k = k tail X' := by
  apply importMpi_element hw isBigEndian Y (h.isElement hw) (h.limbs hw)
  rw [ofBE_integerBytes]
  omega

theorem importCrt_derMpis (hw : w = 32 ∨ w = 64) (build : Build) (isBigEndian : Bool)
    (hDP : Writable DP) (hDQ : Writable DQ) (hQP : Writable QP) (hposDP : 0 < DP.abs)
    (hposDQ : 0 < DQ.abs) (hposQP : 0 < QP.abs) (rsa : MbedtlsRsaContext w) (tail : ByteString)
    (k : ByteString → MbedtlsRsaContext w → RsaParsed w) :
    ∃ DP' DQ' QP' : MbedtlsMpi w,
      importCrt build isBigEndian rsa (derMpi DP ++ (derMpi DQ ++ (derMpi QP ++ tail))) k =
        k tail { rsa with DP := DP', DQ := DQ', QP := QP' } ∧
      (build = .crt → ReadFrom (integerBytes DP.abs) DP' ∧ ReadFrom (integerBytes DQ.abs) DQ' ∧
        ReadFrom (integerBytes QP.abs) QP') := by
  cases build with
  | crt =>
    unfold importCrt
    obtain ⟨DP', hDP', h₁⟩ := importMpi_derMpi hw isBigEndian hDP hposDP rsa.DP rsa
      (derMpi DQ ++ (derMpi QP ++ tail)) _
    rw [h₁]
    obtain ⟨DQ', hDQ', h₂⟩ := importMpi_derMpi hw isBigEndian hDQ hposDQ rsa.DQ
      { rsa with DP := DP' } (derMpi QP ++ tail) _
    rw [h₂]
    obtain ⟨QP', hQP', h₃⟩ := importMpi_derMpi hw isBigEndian hQP hposQP rsa.QP
      { rsa with DP := DP', DQ := DQ' } tail _
    rw [h₃]
    exact ⟨DP', DQ', QP', rfl, fun _ => ⟨hDP', hDQ', hQP'⟩⟩
  | noCrt =>
    -- without CRT the three numbers are read over each other
    unfold importCrt
    obtain ⟨T₁, _, h₁⟩ := importMpi_derMpi hw isBigEndian hDP hposDP .init rsa
      (derMpi DQ ++ (derMpi QP ++ tail)) _
    rw [h₁]
    obtain ⟨T₂, _, h₂⟩ := importMpi_derMpi hw isBigEndian hDQ hposDQ T₁ rsa (derMpi QP ++ tail) _
    rw [h₂]
    obtain ⟨T₃, _, h₃⟩ := importMpi_derMpi hw isBigEndian hQP hposQP T₂ rsa tail _
    rw [h₃]
    exact ⟨rsa.DP, rsa.DQ, rsa.QP, rfl, fun hcrt => Build.noConfusion hcrt⟩

structure ReadBack (build : Build) (N E D P Q DP DQ QP : MbedtlsMpi w)
    (rsa : MbedtlsRsaContext w) : Prop where
  len : rsa.len = mbedtlsMpiSize rsa.N
  N : ReadFrom (integerBytes N.abs) rsa.N
  E : ReadFrom (integerBytes E.abs) rsa.E
  D : ReadFrom (integerBytes D.abs) rsa.D
  P : ReadFrom (integerBytes P.abs) rsa.P
  Q : ReadFrom (integerBytes Q.abs) rsa.Q
  crt : build = .crt → ReadFrom (integerBytes DP.abs) rsa.DP ∧
    ReadFrom (integerBytes DQ.abs) rsa.DQ ∧ ReadFrom (integerBytes QP.abs) rsa.QP

theorem mbedtlsRsaParseKey_derKey (hw : w = 32 ∨ w = 64) (build : Build) (isBigEndian : Bool)
    (rsa₀ : MbedtlsRsaContext w) {N E D P Q : MbedtlsMpi w}
    (hXs : ∀ X ∈ [QP, DQ, DP, Q, P, D, E, N], Writable X ∧ 0 < X.abs) :
    ∃ rsa, mbedtlsRsaParseKey build isBigEndian rsa₀ (derKey [QP, DQ, DP, Q, P, D, E, N]) =
        parseKeyEnd build [] rsa ∧ ReadBack build N E D P Q DP DQ QP rsa := by
  have hlen := length_derMpis_le hw fun X hX => (hXs X hX).1
  have hversion : (element mbedtlsAsn1Integer (integerBytes 0)).length < 2 ^ 21 :=
    length_element_le (by decide)
  simp only [List.mem_cons, List.not_mem_nil, or_false, forall_eq_or_imp, forall_eq] at hXs
  obtain ⟨hQP, hDQ, hDP, hQ, hP, hD, hE, hN⟩ := hXs
  have hshort : (element mbedtlsAsn1Integer (integerBytes 0) ++
      derMpis [QP, DQ, DP, Q, P, D, E, N]).length < 2 ^ 32 := by
    rw [List.length_append]
    simp only [List.length_cons, List.length_nil] at hlen
    omega
  have htag := (@isElement_element _ asn1ConstructedSequence hshort).getTag []
  rw [List.append_nil, List.append_nil] at htag
  have hbody : derMpis [QP, DQ, DP, Q, P, D, E, N] = derMpi N ++ (derMpi E ++ (derMpi D ++
      (derMpi P ++ (derMpi Q ++ (derMpi DP ++ (derMpi DQ ++ (derMpi QP ++ []))))))) := by
    simp only [derMpis, List.nil_append, List.append_assoc, List.append_nil]
  unfold mbedtlsRsaParseKey derKey
  rw [htag]
  simp only [ne_eq, not_true_eq_false, if_false,
    mbedtlsAsn1GetInt_element (show 0 < 2 ^ 31 by decide)]
  rw [hbody]
  unfold parseKeyFields
  obtain ⟨N', hN', h₁⟩ := importMpi_derMpi hw isBigEndian hN.1 hN.2 rsa₀.N rsa₀ _ _
  rw [h₁]
  obtain ⟨E', hE', h₂⟩ := importMpi_derMpi hw isBigEndian hE.1 hE.2 rsa₀.E
    { rsa₀ with len := mbedtlsMpiSize N', N := N' } _ _
  rw [h₂]
  obtain ⟨D', hD', h₃⟩ := importMpi_derMpi hw isBigEndian hD.1 hD.2 rsa₀.D
    { rsa₀ with len := mbedtlsMpiSize N', N := N', E := E' } _ _
  rw [h₃]
  obtain ⟨P', hP', h₄⟩ := importMpi_derMpi hw isBigEndian hP.1 hP.2 rsa₀.P
    { rsa₀ with len := mbedtlsMpiSize N', N := N', E := E', D := D' } _ _
  rw [h₄]
  obtain ⟨Q', hQ', h₅⟩ := importMpi_derMpi hw isBigEndian hQ.1 hQ.2 rsa₀.Q
    { rsa₀ with len := mbedtlsMpiSize N', N := N', E := E', D := D', P := P' } _ _
  rw [h₅]
  obtain ⟨DP', DQ', QP', hend, hcrt⟩ := importCrt_derMpis hw build isBigEndian hDP.1 hDQ.1 hQP.1
    hDP.2 hDQ.2 hQP.2
    { rsa₀ with len := mbedtlsMpiSize N', N := N', E := E', D := D', P := P', Q := Q' } []
    (parseKeyEnd build)
  rw [hend]
  exact ⟨_, rfl, rfl, hN', hE', hD', hP', hQ', hcrt⟩

/-! ## Sizes -/

variable {ctx : MbedtlsRsaContext w}

def rsaLimbs : Nat := 129

theorem limbCount_of_size (hw : w = 32 ∨ w = 64) {v : Int}
    (h : v.natAbs.size ≤ psaVendorRsaMaxKeyBits) : limbCount w v ≤ rsaLimbs := by
  have hbits : psaVendorRsaMaxKeyBits = 4096 := rfl
  have hlimbs : rsaLimbs = 129 := rfl
  unfold limbCount
  rcases hw with rfl | rfl <;> omega

theorem limbs_of_size (hw : w = 32 ∨ w = 64) {v : Nat} (h : v.size ≤ psaVendorRsaMaxKeyBits) :
    charsToLimbs w (integerBytes v).length ≤ rsaLimbs := by
  have hbits : psaVendorRsaMaxKeyBits = 4096 := rfl
  have hlimbs : rsaLimbs = 129 := rfl
  apply limbs_of_lt hw
  rcases hw with rfl | rfl
  · omega
  · omega

theorem writable_of_size (hw : w = 32 ∨ w = 64) (hs : X.s = 1)
    (h : X.abs.size ≤ psaVendorRsaMaxKeyBits) : Writable X := by
  have hbits : psaVendorRsaMaxKeyBits = 4096 := rfl
  have hlimbs : mpiDivLimbs = 9998 := rfl
  refine ⟨hs, ?_⟩
  rcases hw with rfl | rfl <;> omega

theorem writable_of_limbs (hw : 0 < w) (hX : Positive X) (h : limbCount w X.toInt ≤ mpiDivLimbs) :
    Writable X := by
  refine ⟨hX.s, ?_⟩
  rw [limbCount_le hw, hX.toInt, Int.natAbs_natCast] at h
  exact Nat.size_le.mpr h

theorem ReadFrom.of_positive {X' : MbedtlsMpi w} (hX : Positive X)
    (h : ReadFrom (integerBytes X.abs) X') : Positive X' ∧ SameMpi X X' := by
  have habs : X'.abs = X.abs := by rw [h.abs, ofBE_integerBytes]
  have hpos : Positive X' := h.positive (by rw [ofBE_integerBytes]; exact hX.abs_pos)
  exact ⟨hpos, hX.sameMpi hpos habs.symm⟩

structure KeyFacts (ctx : MbedtlsRsaContext w) : Prop where
  pub : PublicFacts ctx
  values : KeyValues ctx.N.toInt ctx.E.toInt ctx.D.toInt ctx.P.toInt ctx.Q.toInt
  N : Positive ctx.N
  E : Positive ctx.E
  D : Positive ctx.D
  P : Positive ctx.P
  Q : Positive ctx.Q
  size : ctx.N.abs.size ≤ psaVendorRsaMaxKeyBits

theorem keyFacts {build : Build} (hs : Signed build ctx)
    (h : mbedtlsRsaCheckPrivkey build ctx = .ok ()) (hlen : ctx.len * 8 ≤ psaVendorRsaMaxKeyBits) :
    KeyFacts ctx := by
  obtain ⟨hpub, _, hparams, _⟩ := mbedtlsRsaCheckPrivkey_eq_ok.mp h
  have hfacts := of_mbedtlsRsaCheckPubkey hpub
  have hvalues : KeyValues ctx.N.toInt ctx.E.toInt ctx.D.toInt ctx.P.toInt ctx.Q.toInt :=
    of_mbedtlsRsaValidateParams hparams
  have hD := hvalues.one_lt_D
  have hP := hvalues.one_lt_P
  have hQ := hvalues.one_lt_Q
  refine ⟨hfacts, hvalues, positive_of_sign hs.N hfacts.N_pos, positive_of_sign hs.E hfacts.E_pos,
    positive_of_sign hs.D (by omega), positive_of_sign hs.P (by omega),
    positive_of_sign hs.Q (by omega), ?_⟩
  have hsize := hfacts.len
  unfold mbedtlsMpiSize at hsize
  rw [mbedtlsMpiBitlen_eq] at hsize
  omega

theorem KeyFacts.P_le (h : KeyFacts ctx) : ctx.P.toInt ≤ ctx.N.toInt := by
  have hQ := h.values.one_lt_Q
  rw [← h.values.modulus]
  exact le_mul_of_one_le_right (by rw [h.P.toInt]; omega) (by omega)

theorem KeyFacts.Q_le (h : KeyFacts ctx) : ctx.Q.toInt ≤ ctx.N.toInt := by
  have hP := h.values.one_lt_P
  rw [← h.values.modulus, Int.mul_comm]
  exact le_mul_of_one_le_right (by rw [h.Q.toInt]; omega) (by omega)

theorem KeyFacts.size_le (h : KeyFacts ctx) (hX : Positive X) (hle : X.toInt ≤ ctx.N.toInt) :
    X.abs.size ≤ psaVendorRsaMaxKeyBits := by
  rw [hX.toInt, h.N.toInt] at hle
  exact Nat.le_trans (Nat.size_le_size (by omega)) h.size

/-! ## The checks of a key that was read back -/

theorem ReadBack.check (hw : w = 32 ∨ w = 64) {build : Build} {ctx rsa : MbedtlsRsaContext w}
    {DP DQ QP : MbedtlsMpi w} (hs : Signed build ctx)
    (hcheck : mbedtlsRsaCheckPrivkey build ctx = .ok ())
    (hlen : ctx.len * 8 ≤ psaVendorRsaMaxKeyBits)
    (hcrt : build = .crt → DP = ctx.DP ∧ DQ = ctx.DQ ∧ QP = ctx.QP ∧
      ctx.DP.abs.size < w * mpiDivLimbs ∧ ctx.DQ.abs.size < w * mpiDivLimbs ∧
      limbCount w ctx.QP.toInt + limbCount w ctx.Q.toInt ≤ mpiDivLimbs)
    (h : ReadBack build ctx.N ctx.E ctx.D ctx.P ctx.Q DP DQ QP rsa) :
    SameKey build ctx rsa ∧ mbedtlsRsaCheckPrivkey build rsa = .ok () := by
  have hw0 : 0 < w := by omega
  have hlimbs : mpiDivLimbs = 9998 := rfl
  have hrsa : rsaLimbs = 129 := rfl
  have hfacts := keyFacts hs hcheck hlen
  obtain ⟨hpub, hcontext, hparams, hvalidate⟩ := mbedtlsRsaCheckPrivkey_eq_ok.mp hcheck
  obtain ⟨hN', hsN⟩ := h.N.of_positive hfacts.N
  obtain ⟨hE', hsE⟩ := h.E.of_positive hfacts.E
  obtain ⟨hD', hsD⟩ := h.D.of_positive hfacts.D
  obtain ⟨hP', hsP⟩ := h.P.of_positive hfacts.P
  obtain ⟨hQ', hsQ⟩ := h.Q.of_positive hfacts.Q
  have hsizeE := hfacts.size_le hfacts.E (Int.le_of_lt hfacts.pub.E_lt)
  have hsizeD := hfacts.size_le hfacts.D (Int.le_of_lt hfacts.values.D_lt)
  have hsizeP := hfacts.size_le hfacts.P hfacts.P_le
  have hsizeQ := hfacts.size_le hfacts.Q hfacts.Q_le
  have hsmall : ∀ {X X' : MbedtlsMpi w}, Positive X' → ReadFrom (integerBytes X.abs) X' →
      X.abs.size ≤ psaVendorRsaMaxKeyBits → X'.num.Small w := by
    intro X X' hpos hread hsize
    apply hpos.small hw0
    rw [hread.n]
    have hle := limbs_of_size hw hsize
    omega
  have hsum : ∀ {X Y : MbedtlsMpi w}, Positive X → Positive Y →
      X.abs.size ≤ psaVendorRsaMaxKeyBits → Y.abs.size ≤ psaVendorRsaMaxKeyBits →
      limbCount w X.toInt + limbCount w Y.toInt ≤ mpiDivLimbs := by
    intro X Y hX hY hsizeX hsizeY
    have hleX : limbCount w X.toInt ≤ rsaLimbs :=
      limbCount_of_size hw (by rw [hX.toInt]; exact hsizeX)
    have hleY : limbCount w Y.toInt ≤ rsaLimbs :=
      limbCount_of_size hw (by rw [hY.toInt]; exact hsizeY)
    omega
  have hpublic : SamePublic ctx rsa := by
    refine ⟨?_, hsN, hsE⟩
    rw [h.len, hfacts.pub.len, hsN.size]
  have hcrtRead : build = .crt → SameMpi ctx.DP rsa.DP ∧ SameMpi ctx.DQ rsa.DQ ∧
      SameMpi ctx.QP rsa.QP ∧ Positive rsa.DP ∧ Positive rsa.DQ ∧ Positive rsa.QP ∧
      rsa.DP.num.Small w ∧ rsa.DQ.num.Small w := by
    intro hbuild
    subst hbuild
    obtain ⟨rfl, rfl, rfl, hltDP, hltDQ, _⟩ := hcrt rfl
    obtain ⟨hDP, hDQ, hQP⟩ := h.crt rfl
    obtain ⟨hsDP, hsDQ, hsQP⟩ := hs.crt rfl
    obtain ⟨hpDP, hpDQ, hpQP⟩ := crt_pos hcontext
    obtain ⟨hDP', hsameDP⟩ := hDP.of_positive (positive_of_sign hsDP hpDP)
    obtain ⟨hDQ', hsameDQ⟩ := hDQ.of_positive (positive_of_sign hsDQ hpDQ)
    obtain ⟨hQP', hsameQP⟩ := hQP.of_positive (positive_of_sign hsQP hpQP)
    refine ⟨hsameDP, hsameDQ, hsameQP, hDP', hDQ', hQP', hDP'.small hw0 ?_, hDQ'.small hw0 ?_⟩
    · rw [hDP.n]
      exact limbs_of_lt hw hltDP
    · rw [hDQ.n]
      exact limbs_of_lt hw hltDQ
  have hsame : SameKey build ctx rsa := {
    toSamePublic := hpublic
    D := hsD
    P := hsP
    Q := hsQ
    crt := fun hbuild => ⟨(hcrtRead hbuild).1, (hcrtRead hbuild).2.1, (hcrtRead hbuild).2.2.1⟩ }
  refine ⟨hsame, mbedtlsRsaCheckPrivkey_eq_ok.mpr ⟨?_, ?_, ?_, ?_⟩⟩
  · rw [← mbedtlsRsaCheckPubkey_congr hpublic, hpub]
  · rw [← rsaCheckContext_congr hsame, hcontext]
  · apply mbedtlsRsaValidateParams_of_small hw0
    · show KeyValues rsa.N.toInt rsa.E.toInt rsa.D.toInt rsa.P.toInt rsa.Q.toInt
      rw [← hsN.toInt, ← hsE.toInt, ← hsD.toInt, ← hsP.toInt, ← hsQ.toInt]
      exact hfacts.values
    · exact hsmall hP' h.P hsizeP
    · exact hsmall hQ' h.Q hsizeQ
    · show limbCount w rsa.P.toInt + limbCount w rsa.Q.toInt ≤ mpiDivLimbs
      rw [← hsP.toInt, ← hsQ.toInt]
      exact hsum hfacts.P hfacts.Q hsizeP hsizeQ
    · show limbCount w rsa.D.toInt + limbCount w rsa.E.toInt ≤ mpiDivLimbs
      rw [← hsD.toInt, ← hsE.toInt]
      exact hsum hfacts.D hfacts.E hsizeD hsizeE
  · intro hbuild
    obtain ⟨hsDP, hsDQ, hsQP, hDP', hDQ', hQP', hsmallDP, hsmallDQ⟩ := hcrtRead hbuild
    obtain ⟨_, _, _, _, _, hfits⟩ := hcrt hbuild
    have hvalid := hvalidate hbuild
    subst hbuild
    obtain ⟨hpDP, hpDQ, hpQP⟩ := crt_pos hcontext
    have hcrtValues := (of_mbedtlsRsaValidateCrt hfacts.values.one_lt_P hfacts.values.one_lt_Q
      (Int.lt_trans Int.one_pos hfacts.values.one_lt_D) hpDP hpDQ hpQP hvalid).1
    have hone := hfacts.values.one_lt_P
    have htwo := hfacts.values.one_lt_Q
    apply mbedtlsRsaValidateCrt_of_small hw0
    · show 1 < rsa.P.toInt
      rwa [← hsP.toInt]
    · show 1 < rsa.Q.toInt
      rwa [← hsQ.toInt]
    · show 0 ≤ rsa.D.toInt
      rw [hD'.toInt]
      omega
    · show 0 ≤ rsa.DP.toInt
      rw [hDP'.toInt]
      omega
    · show 0 ≤ rsa.DQ.toInt
      rw [hDQ'.toInt]
      omega
    · show 0 < rsa.QP.toInt
      rwa [← hsQP.toInt]
    · show CrtValues rsa.P.toInt rsa.Q.toInt rsa.D.toInt rsa.DP.toInt rsa.DQ.toInt rsa.QP.toInt
      rw [← hsP.toInt, ← hsQ.toInt, ← hsD.toInt, ← hsDP.toInt, ← hsDQ.toInt, ← hsQP.toInt]
      exact hcrtValues
    · exact hsmall hP' h.P hsizeP
    · exact hsmall hQ' h.Q hsizeQ
    · exact hsmall hD' h.D hsizeD
    · exact hsmallDP
    · exact hsmallDQ
    · show limbCount w rsa.QP.toInt + limbCount w rsa.Q.toInt ≤ mpiDivLimbs
      rw [← hsQP.toInt, ← hsQ.toInt]
      exact hfits

end TfPsaCrypto.RsaDer
