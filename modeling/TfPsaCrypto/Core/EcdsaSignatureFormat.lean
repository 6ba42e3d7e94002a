import TfPsaCrypto.Core.EcdsaSignature
import TfPsaCrypto.Utilities.Asn1Bounds

/-!
# Converting ECDSA signatures

`mbedtls_ecdsa_raw_to_der` and `mbedtls_ecdsa_der_to_raw`, which accepts more than DER.
-/

namespace TfPsaCrypto

open Bytes Der

/-! ## Writing -/

variable {n k r s : Nat} {raw : ByteString}

def ecdsaInteger (n : Nat) : ByteString := element mbedtlsAsn1Integer (integerBytes n)

def ecdsaSignature (r s : Nat) : ByteString :=
  element mbedtlsAsn1ConstructedSequence (ecdsaInteger r ++ ecdsaInteger s)

theorem length_element_le {tag : UInt8} {contents : ByteString} (h : contents.length < 256) :
    (element tag contents).length ≤ contents.length + 3 := by
  have hcount : byteCount contents.length ≤ 1 := by
    rw [byteCount_le]
    exact h
  rw [length_element, length_lengthBytes]
  split <;> omega

theorem length_ecdsaInteger_le (h : n < 256 ^ k) (hk : k ≤ 66) :
    (ecdsaInteger n).length ≤ k + 4 := by
  have hsize : n.size ≤ 8 * k := by
    rw [Nat.size_le, Nat.pow_mul]
    exact h
  have hlen := length_integerBytes n
  have hle := @length_element_le mbedtlsAsn1Integer (integerBytes n) (by omega)
  unfold ecdsaInteger
  omega

theorem length_ecdsaSignature_lt (hr : r < 256 ^ k) (hs : s < 256 ^ k) (hk : k ≤ 66) :
    (ecdsaSignature r s).length < 256 := by
  have hlenr := length_ecdsaInteger_le hr hk
  have hlens := length_ecdsaInteger_le hs hk
  have hlen : (ecdsaInteger r ++ ecdsaInteger s).length ≤ 2 * (k + 4) := by
    rw [List.length_append]
    omega
  have hle := @length_element_le mbedtlsAsn1ConstructedSequence (ecdsaInteger r ++ ecdsaInteger s)
    (by omega)
  unfold ecdsaSignature
  omega

theorem rawSkipZeros_eq (h : ofBE raw ≠ 0) : rawSkipZeros raw = .ok (raw.dropWhile (· = 0)) := by
  induction raw with
  | nil => exact absurd ofBE_nil h
  | cons b raw ih =>
    unfold rawSkipZeros
    by_cases hb : b = 0
    · subst hb
      have hrest : ofBE raw ≠ 0 := by
        intro hzero
        apply h
        rw [ofBE_cons, hzero]
        simp
      have hne : raw.length ≠ 0 := by
        intro hlen
        rw [List.length_eq_zero_iff.mp hlen] at hrest
        exact hrest ofBE_nil
      rw [if_pos rfl, if_neg hne, ih hrest, List.dropWhile_cons_of_pos (by simp)]
    · rw [if_neg hb, List.dropWhile_cons_of_neg (by simpa using hb)]

theorem convertRawToDerSingleInt_writes (h : ofBE raw ≠ 0) (hlen : raw.length ≤ 66)
    (p : Asn1Writer) :
    Asn1Writes p (ecdsaInteger (ofBE raw)) (ecdsaInteger (ofBE raw)).length
      (convertRawToDerSingleInt raw p) := by
  have hsize : (ecdsaInteger (ofBE raw)).length < 2 ^ 31 := by
    have := length_ecdsaInteger_le (ofBE_lt raw) hlen
    omega
  have hcontents := length_unsignedBytes_le (ofBE raw)
  unfold convertRawToDerSingleInt
  rw [rawSkipZeros_eq h, dropWhile_zero, ← unsignedBytes_of_pos (Nat.pos_of_ne_zero h)]
  simp only
  split
  · next hsmall =>
    apply asn1Writes_element_small _ rfl
    omega
  next hroom =>
  rw [Asn1Writer.pushBytes_of_le (Nat.not_lt.mp hroom)]
  apply asn1Writes_integer hsize (Nat.not_lt.mp hroom)
  · intro htop
    rw [if_pos ((topBit_after (unsignedBytes_ne_nil _)).mpr htop)]
  · intro hlow
    rw [if_neg]
    rw [topBit_after (unsignedBytes_ne_nil _)]
    omega

theorem Asn1Writer.seek_after {p : Asn1Writer} {bytes : ByteString} :
    (p.after bytes).seek (p.space.length - bytes.length) = p.after bytes := by
  have hlen := p.length_after bytes
  unfold seek
  rw [List.take_left' hlen, List.drop_left' hlen]

theorem ecdsaAddCoordinate_writes {raw : ByteString} (h : ofBE raw ≠ 0)
    (hraw : raw.length ≤ 66) {p : Asn1Writer} {len : Nat} {cs : ByteString} {n : Int}
    {k : Nat → Asn1Writer → Asn1Written}
    (hk : Asn1Writes (p.after (ecdsaInteger (ofBE raw))) cs n
      (k (len + (ecdsaInteger (ofBE raw)).length) (p.after (ecdsaInteger (ofBE raw))))) :
    Asn1Writes p (cs ++ ecdsaInteger (ofBE raw)) n (ecdsaAddCoordinate raw len p k) := by
  have hwrites := convertRawToDerSingleInt_writes h hraw p
  generalize ecdsaInteger (ofBE raw) = bs at hk hwrites ⊢
  have hstep : ecdsaAddCoordinate raw len p k =
      if bs.length ≤ p.space.length then k (len + bs.length) (p.after bs)
      else convertRawToDerSingleInt raw p := by
    unfold ecdsaAddCoordinate
    split
    · next hroom =>
      rw [hwrites.of_le hroom]
      unfold Asn1Writer.returns
      simp only
      rw [if_neg (by omega), Int.toNat_natCast, Asn1Writer.seek_after]
    · next hroom =>
      have hret := hwrites.of_lt (Nat.not_le.mp hroom)
      simp only
      rw [hret]
  rw [hstep]
  constructor
  · intro hroom
    rw [List.length_append] at hroom
    rw [if_pos (by omega), hk.of_le (by rw [p.length_after]; omega), Asn1Writer.after_after]
  intro hsmall
  rw [List.length_append] at hsmall
  split
  · next hroom => exact hk.of_lt (by rw [p.length_after]; omega)
  · next hroom => exact hwrites.of_lt (Nat.not_le.mp hroom)

theorem ecdsaWriteDer_writes {r s : ByteString} (hr : ofBE r ≠ 0) (hs : ofBE s ≠ 0)
    (hrlen : r.length = k) (hslen : s.length = k) (hk : k ≤ 66) (p : Asn1Writer) :
    Asn1Writes p (ecdsaSignature (ofBE r) (ofBE s)) (ecdsaSignature (ofBE r) (ofBE s)).length
      (ecdsaWriteDer r s p) := by
  have hlt := length_ecdsaSignature_lt (hrlen ▸ ofBE_lt r) (hslen ▸ ofBE_lt s) hk
  have hlength : (ecdsaSignature (ofBE r) (ofBE s)).length =
      1 + (lengthBytes (ecdsaInteger (ofBE r) ++ ecdsaInteger (ofBE s)).length).length +
        (ecdsaInteger (ofBE r) ++ ecdsaInteger (ofBE s)).length := length_element _ _
  have hbytes : ecdsaSignature (ofBE r) (ofBE s) =
      ([] ++ [mbedtlsAsn1ConstructedSequence] ++
        lengthBytes (ecdsaInteger (ofBE r) ++ ecdsaInteger (ofBE s)).length ++
        ecdsaInteger (ofBE r)) ++ ecdsaInteger (ofBE s) := by
    simp [ecdsaSignature, element]
  rw [List.length_append] at hlength
  generalize hcount : (ecdsaSignature (ofBE r) (ofBE s)).length = count at hlength hlt
  rw [hbytes]
  apply ecdsaAddCoordinate_writes hs (by omega)
  apply ecdsaAddCoordinate_writes hr (by omega)
  have hbody : 0 + (ecdsaInteger (ofBE s)).length + (ecdsaInteger (ofBE r)).length =
      (ecdsaInteger (ofBE r) ++ ecdsaInteger (ofBE s)).length := by
    rw [List.length_append]
    omega
  rw [hbody]
  apply Asn1Writes.chkAdd (mbedtlsAsn1WriteLen_writes (by rw [List.length_append]; omega) _)
  apply Asn1Writes.chkAdd (mbedtlsAsn1WriteTag_writes _ _)
  have htotal : (ecdsaInteger (ofBE r) ++ ecdsaInteger (ofBE s)).length +
      (lengthBytes (ecdsaInteger (ofBE r) ++ ecdsaInteger (ofBE s)).length).length + 1 = count := by
    rw [List.length_append] at *
    omega
  rw [htotal]
  exact asn1Writes_nil _ _

/-! ## Reading -/

variable {v derLen : Nat} {der : ByteString}

/-- What `mbedtls_ecdsa_der_to_raw` accepts: the sign bit is 0, and one leading zero is skipped. -/
def IsSkippedContents (contents : ByteString) : Prop :=
  ∃ b bs, contents = b :: bs ∧ b.toNat < 128 ∧ ∀ c cs, bs = c :: cs → b = 0 → c ≠ 0

inductive AcceptedInteger (coordinateSize : Nat) : ByteString → Nat → Prop
  | mk {lenBytes contents : ByteString} (hlen : Asn1Length contents.length lenBytes)
      (hcontents : IsSkippedContents contents) (hfit : ofBE contents < 256 ^ coordinateSize) :
      AcceptedInteger coordinateSize (mbedtlsAsn1Integer :: (lenBytes ++ contents)) (ofBE contents)

theorem skipped_eq {contents : ByteString} (h : IsSkippedContents contents) :
    (if contents.headD 0 = 0 then contents.tail else contents) =
      toBE (byteCount (ofBE contents)) (ofBE contents) := by
  obtain ⟨b, bs, rfl, _, hnext⟩ := h
  rw [← dropWhile_zero, List.headD_cons]
  split
  · next hzero =>
    rw [List.dropWhile_cons_of_pos (by simpa using hzero), List.tail_cons]
    rcases bs with _ | ⟨c, cs⟩
    · rfl
    · rw [List.dropWhile_cons_of_neg (by simpa using hnext c cs rfl hzero)]
  · next hne => rw [List.dropWhile_cons_of_neg (by simpa using hne)]

theorem padded_eq (h : n < 256 ^ k) :
    List.replicate (k - byteCount n) 0 ++ toBE (byteCount n) n = toBE k n := by
  have hle : byteCount n ≤ k := byteCount_le.mpr h
  have hlen : (List.replicate (k - byteCount n) 0 ++ toBE (byteCount n) n).length = k := by
    rw [List.length_append, List.length_replicate, length_toBE]
    omega
  have hvalue : ofBE (List.replicate (k - byteCount n) 0 ++ toBE (byteCount n) n) = n := by
    rw [ofBE_replicate_zero, ofBE_toBE_byteCount]
  have hall := toBE_ofBE (List.replicate (k - byteCount n) 0 ++ toBE (byteCount n) n)
  rw [hlen, hvalue] at hall
  exact hall.symm

theorem derCopyInteger_eq (rest : ByteString) :
    derCopyInteger derLen k (toBE (byteCount v) v ++ rest) (byteCount v) =
      if v < 256 ^ k then .ok (toBE k v, derLen - rest.length) else .error .invalidData := by
  unfold derCopyInteger
  by_cases hfit : v < 256 ^ k
  · have hlen : (toBE (byteCount v) v).length = byteCount v := length_toBE _ _
    rw [if_neg (Nat.not_lt.mpr (byteCount_le.mpr hfit)), if_pos hfit, if_neg,
      List.take_left' hlen, List.drop_left' hlen, padded_eq hfit]
    rw [List.length_append]
    omega
  · rw [if_pos (Nat.not_le.mp fun hle => hfit (byteCount_le.mp hle)), if_neg hfit]

open Classical in
theorem convertDerToRawSingleInt_of_tag {der contents rest : ByteString} {derLen k : Nat}
    (hle : derLen ≤ der.length)
    (h : mbedtlsAsn1GetTag (der.take derLen) mbedtlsAsn1Integer =
      .ok (contents.length, contents ++ rest)) :
    convertDerToRawSingleInt der derLen k =
      if IsSkippedContents contents then
        if ofBE contents < 256 ^ k then .ok (toBE k (ofBE contents), derLen - rest.length)
        else .error .invalidData
      else .error .invalidData := by
  unfold convertDerToRawSingleInt
  rw [if_neg (Nat.not_lt.mpr hle), h]
  rcases contents with _ | ⟨b, bs⟩
  · have hnot : ¬ IsSkippedContents [] := by
      rintro ⟨b, bs, hnil, _⟩
      exact absurd hnil (by simp)
    rw [if_neg hnot]
    rfl
  simp only [List.cons_append]
  rw [if_neg (by simp)]
  by_cases htop : b &&& 0x80 ≠ 0
  · rw [if_pos htop, if_neg]
    rintro ⟨b', bs', heq, hb, _⟩
    obtain ⟨rfl, rfl⟩ := List.cons.inj heq
    exact htop ((and_0x80_iff b).mpr hb)
  rw [if_neg htop]
  rw [not_not, and_0x80_iff] at htop
  by_cases hzero : b = 0
  · subst hzero
    rw [if_pos rfl, List.length_cons, Nat.add_sub_cancel]
    by_cases hnext : ∀ c cs, bs = c :: cs → (0 : UInt8) = 0 → c ≠ 0
    · have hcontents : IsSkippedContents (0 :: bs) := ⟨0, bs, rfl, by decide, hnext⟩
      have hskipped := skipped_eq hcontents
      rw [List.headD_cons, if_pos rfl, List.tail_cons] at hskipped
      have hlen := congrArg List.length hskipped
      rw [length_toBE] at hlen
      rw [if_pos hcontents, if_neg, if_neg]
      · rw [hlen]
        generalize ofBE (0 :: bs) = v at hskipped ⊢
        rw [hskipped]
        exact derCopyInteger_eq rest
      · rintro ⟨hpos, hhead⟩
        rcases bs with _ | ⟨c, cs⟩
        · exact absurd hpos (Nat.lt_irrefl 0)
        · exact hnext c cs rfl rfl hhead
      · rintro ⟨hpos, hnil⟩
        rcases bs with _ | ⟨c, cs⟩
        · exact absurd hpos (Nat.lt_irrefl 0)
        · cases hnil
    · rw [if_neg (c := IsSkippedContents (0 :: bs))]
      · rcases bs with _ | ⟨c, cs⟩
        · exact absurd (by rintro c cs ⟨⟩) hnext
        rw [if_neg (by simp), if_pos]
        refine ⟨by simp, ?_⟩
        by_contra hc
        apply hnext
        rintro c' cs' heq _
        obtain ⟨rfl, rfl⟩ := List.cons.inj heq
        exact hc
      · rintro ⟨b', bs', heq, _, hnext'⟩
        obtain ⟨rfl, rfl⟩ := List.cons.inj heq
        exact hnext hnext'
  · have hcontents : IsSkippedContents (b :: bs) :=
      ⟨b, bs, rfl, htop, fun _ _ _ hb => absurd hb hzero⟩
    have hskipped := skipped_eq hcontents
    rw [List.headD_cons, if_neg hzero] at hskipped
    have hlen := congrArg List.length hskipped
    rw [length_toBE] at hlen
    rw [if_neg hzero, if_pos hcontents, hlen, ← List.cons_append]
    generalize ofBE (b :: bs) = v at hskipped ⊢
    rw [hskipped]
    exact derCopyInteger_eq rest

theorem cut_of_tag {input tail : ByteString} {tag : UInt8}
    (h : mbedtlsAsn1GetTag input tag = .ok (n, tail)) :
    ∃ contents rest, mbedtlsAsn1GetTag input tag = .ok (contents.length, contents ++ rest) := by
  obtain ⟨bs, _, _, hle⟩ := mbedtlsAsn1GetTag_iff.mp h
  refine ⟨tail.take n, tail.drop n, ?_⟩
  rw [List.take_append_drop, List.length_take, Nat.min_eq_left hle]
  exact h

theorem convertDerToRawSingleInt_iff {coordinate : ByteString} :
    convertDerToRawSingleInt der derLen k = .ok (coordinate, n) ↔
      derLen ≤ der.length ∧ ∃ e rest v, der.take derLen = e ++ rest ∧ AcceptedInteger k e v ∧
        coordinate = toBE k v ∧ n = e.length := by
  by_cases hle : derLen ≤ der.length
  · have htake : (der.take derLen).length = derLen := by
      rw [List.length_take, Nat.min_eq_left hle]
    constructor
    · intro h
      refine ⟨hle, ?_⟩
      rcases htag : mbedtlsAsn1GetTag (der.take derLen) mbedtlsAsn1Integer with err | ⟨m, tail⟩
      · unfold convertDerToRawSingleInt at h
        rw [if_neg (Nat.not_lt.mpr hle), htag] at h
        cases h
      obtain ⟨contents, rest, hcut⟩ := cut_of_tag htag
      rw [convertDerToRawSingleInt_of_tag hle hcut] at h
      obtain ⟨lenBytes, hlen, hinput, _⟩ := mbedtlsAsn1GetTag_iff.mp hcut
      split at h
      · next hcontents =>
        split at h
        · next hfit =>
          cases h
          refine ⟨_, rest, _, ?_, .mk hlen hcontents hfit, rfl, ?_⟩
          · rw [hinput]
            simp
          · have hall := congrArg List.length hinput
            rw [htake] at hall
            simp only [List.length_cons, List.length_append] at hall ⊢
            omega
        · cases h
      · cases h
    · rintro ⟨_, e, rest, v, hsplit, haccepted, rfl, rfl⟩
      cases haccepted with
      | @mk lenBytes contents hlen hcontents hfit =>
        have htag : mbedtlsAsn1GetTag (der.take derLen) mbedtlsAsn1Integer =
            .ok (contents.length, contents ++ rest) := by
          rw [mbedtlsAsn1GetTag_iff]
          refine ⟨lenBytes, hlen, ?_, ?_⟩
          · rw [hsplit]
            simp
          · rw [List.length_append]
            omega
        rw [convertDerToRawSingleInt_of_tag hle htag, if_pos hcontents, if_pos hfit]
        have hall := congrArg List.length hsplit
        rw [htake, List.length_append] at hall
        rw [Nat.sub_eq_of_eq_add (by omega : derLen = _ + rest.length)]
  · constructor
    · intro h
      unfold convertDerToRawSingleInt at h
      rw [if_pos (Nat.not_le.mp hle)] at h
      cases h
    · rintro ⟨hle', _⟩
      exact absurd hle' hle

theorem convertDerToRawSingleInt_inBounds (hle : derLen ≤ der.length) :
    convertDerToRawSingleInt der derLen k ≠ .error .outOfBounds := by
  rcases htag : mbedtlsAsn1GetTag (der.take derLen) mbedtlsAsn1Integer with err | ⟨m, tail⟩
  · have hin := mbedtlsAsn1GetTag_inBounds (der.take derLen) mbedtlsAsn1Integer
    unfold convertDerToRawSingleInt
    rw [if_neg (Nat.not_lt.mpr hle), htag]
    rintro ⟨⟩
    exact hin htag
  · obtain ⟨contents, rest, hcut⟩ := cut_of_tag htag
    rw [convertDerToRawSingleInt_of_tag hle hcut]
    split
    · split <;> simp
    · simp

theorem asn1Length_lt {lenBytes : ByteString} (h : Asn1Length n lenBytes) : n < 2 ^ 32 := by
  cases h with
  | short h => omega
  | long digits hpos hle h =>
    rw [← h]
    refine Nat.lt_of_lt_of_le (ofBE_lt digits) ?_
    calc 256 ^ digits.length ≤ 256 ^ 4 := Nat.pow_le_pow_right (by decide) hle
      _ = 2 ^ 32 := by decide

theorem sizeTSub_eq {a b : Nat} (h : b ≤ a) (ha : a < 2 ^ 64) : sizeTSub a b = a - b := by
  have hsplit : a + 2 ^ 64 - b = a - b + 2 ^ 64 := by omega
  unfold sizeTSub
  rw [hsplit, Nat.add_mod_right, Nat.mod_eq_of_lt (by omega)]

theorem AcceptedInteger.length_pos {e : ByteString} (h : AcceptedInteger k e v) : 0 < e.length := by
  cases h
  simp

theorem ecdsaReadLast_iff {p r : ByteString} {dataLen : Nat} (hder : p.length ≤ der.length) :
    ecdsaReadLast der p dataLen k r = .ok raw ↔
      dataLen = p.length ∧ ∃ s, AcceptedInteger k p s ∧ raw = r ++ toBE k s := by
  unfold ecdsaReadLast
  constructor
  · intro h
    rcases hs : convertDerToRawSingleInt p dataLen k with err | ⟨coordinate, ret⟩
    · rw [hs] at h
      cases h
    obtain ⟨hle, e, rest, s, hsplit, haccepted, rfl, rfl⟩ := convertDerToRawSingleInt_iff.mp hs
    have hall := congrArg List.length hsplit
    rw [List.length_take, Nat.min_eq_left hle, List.length_append] at hall
    rw [hs] at h
    simp only at h
    split at h
    · cases h
    next hend =>
    cases h
    -- everything is consumed, so the INTEGER ends where the input ends
    rw [List.length_drop] at hend
    have hempty : rest = [] := by
      rw [← List.length_eq_zero_iff]
      omega
    subst hempty
    rw [List.append_nil, List.take_of_length_le (by omega)] at hsplit
    subst hsplit
    exact ⟨by omega, s, haccepted, rfl⟩
  · rintro ⟨rfl, s, haccepted, rfl⟩
    have hs : convertDerToRawSingleInt p p.length k = .ok (toBE k s, p.length) := by
      rw [convertDerToRawSingleInt_iff]
      refine ⟨le_rfl, p, [], s, ?_, haccepted, rfl, rfl⟩
      rw [List.take_length, List.append_nil]
    rw [hs]
    simp only [List.drop_length, List.length_nil, Nat.sub_zero, ne_eq, not_true, if_false]

theorem ecdsaReadDer_iff :
    ecdsaReadDer der k = .ok raw ↔
      ∃ lenBytes e₁ e₂ r s, Asn1Length (e₁ ++ e₂).length lenBytes ∧
        der = mbedtlsAsn1ConstructedSequence :: (lenBytes ++ (e₁ ++ e₂)) ∧
        AcceptedInteger k e₁ r ∧ AcceptedInteger k e₂ s ∧ raw = toBE k r ++ toBE k s := by
  unfold ecdsaReadDer
  constructor
  · intro h
    rcases htag : mbedtlsAsn1GetTag der mbedtlsAsn1ConstructedSequence with err | ⟨n, p⟩
    · rw [htag] at h
      cases h
    obtain ⟨lenBytes, hlen, hder, hle⟩ := mbedtlsAsn1GetTag_iff.mp htag
    rw [htag] at h
    simp only at h
    rcases hr : convertDerToRawSingleInt p n k with err | ⟨coordinate, ret⟩
    · rw [hr] at h
      cases h
    obtain ⟨_, e₁, rest, r, hsplit, haccepted₁, rfl, rfl⟩ := convertDerToRawSingleInt_iff.mp hr
    have hall := congrArg List.length hsplit
    rw [List.length_take, Nat.min_eq_left hle, List.length_append] at hall
    have hlt := asn1Length_lt hlen
    rw [hr] at h
    have hlast : ecdsaReadLast der (p.drop e₁.length) (sizeTSub n e₁.length) k (toBE k r) =
        .ok raw := h
    have hshort : p.length < der.length := by
      rw [hder]
      simp only [List.length_cons, List.length_append]
      omega
    rw [sizeTSub_eq (by omega) (by omega)] at hlast
    obtain ⟨hall', s, haccepted₂, rfl⟩ :=
      (ecdsaReadLast_iff (by rw [List.length_drop]; omega)).mp hlast
    have hpos := haccepted₂.length_pos
    rw [List.length_drop] at hall' hpos
    rw [List.take_of_length_le (by omega)] at hsplit
    have hdrop : p.drop e₁.length = rest := by
      rw [hsplit, List.drop_left]
    rw [hdrop] at haccepted₂
    refine ⟨lenBytes, e₁, rest, r, s, ?_, ?_, haccepted₁, haccepted₂, rfl⟩
    · rw [List.length_append, ← hall]
      exact hlen
    · rw [← hsplit]
      exact hder
  · rintro ⟨lenBytes, e₁, e₂, r, s, hlen, rfl, haccepted₁, haccepted₂, rfl⟩
    have htag : mbedtlsAsn1GetTag (mbedtlsAsn1ConstructedSequence :: (lenBytes ++ (e₁ ++ e₂)))
        mbedtlsAsn1ConstructedSequence = .ok ((e₁ ++ e₂).length, e₁ ++ e₂) :=
      mbedtlsAsn1GetTag_iff.mpr ⟨lenBytes, hlen, rfl, le_rfl⟩
    have hr : convertDerToRawSingleInt (e₁ ++ e₂) (e₁ ++ e₂).length k =
        .ok (toBE k r, e₁.length) := by
      rw [convertDerToRawSingleInt_iff]
      refine ⟨le_rfl, e₁, e₂, r, ?_, haccepted₁, rfl, rfl⟩
      rw [List.take_length]
    have hlt := asn1Length_lt hlen
    rw [htag]
    simp only
    rw [hr]
    show ecdsaReadLast _ ((e₁ ++ e₂).drop e₁.length) (sizeTSub (e₁ ++ e₂).length e₁.length) k _ = _
    rw [sizeTSub_eq (by simp) (by omega), List.drop_left, ecdsaReadLast_iff]
    · exact ⟨by simp, s, haccepted₂, rfl⟩
    · simp only [List.length_cons, List.length_append]
      omega

theorem ecdsaReadDer_inBounds (der : ByteString) (k : Nat) :
    ecdsaReadDer der k ≠ .error .outOfBounds := by
  intro h
  unfold ecdsaReadDer at h
  rcases htag : mbedtlsAsn1GetTag der mbedtlsAsn1ConstructedSequence with err | ⟨n, p⟩
  · rw [htag] at h
    cases h
    exact mbedtlsAsn1GetTag_inBounds _ _ htag
  obtain ⟨lenBytes, hlen, _, hle⟩ := mbedtlsAsn1GetTag_iff.mp htag
  rw [htag] at h
  simp only at h
  rcases hr : convertDerToRawSingleInt p n k with err | ⟨coordinate, ret⟩
  · rw [hr] at h
    cases h
    exact convertDerToRawSingleInt_inBounds hle hr
  obtain ⟨_, e₁, rest, r, hsplit, _, _, rfl⟩ := convertDerToRawSingleInt_iff.mp hr
  have hall := congrArg List.length hsplit
  rw [List.length_take, Nat.min_eq_left hle, List.length_append] at hall
  have hlt := asn1Length_lt hlen
  rw [hr] at h
  have hlast : ecdsaReadLast der (p.drop e₁.length) (sizeTSub n e₁.length) k coordinate =
    .error .outOfBounds := h
  rw [sizeTSub_eq (by omega) (by omega)] at hlast
  unfold ecdsaReadLast at hlast
  have hfit : n - e₁.length ≤ (p.drop e₁.length).length := by
    rw [List.length_drop]
    omega
  rcases hs : convertDerToRawSingleInt (p.drop e₁.length) (n - e₁.length) k with err | ⟨c, ret⟩
  · rw [hs] at hlast
    cases hlast
    exact convertDerToRawSingleInt_inBounds hfit hs
  rw [hs] at hlast
  simp only at hlast
  split at hlast
  · cases hlast
  · cases hlast

/-! ## Signatures -/

variable {maxBits : Nat} {mem buffer : ByteString}

theorem isSkippedContents_of_isIntegerContents {contents : ByteString}
    (h : IsIntegerContents contents) : IsSkippedContents contents := by
  obtain ⟨b, bs, heq, hb, hneeded⟩ := h
  refine ⟨b, bs, heq, hb, ?_⟩
  rintro c cs hbs hzero rfl
  exact absurd (hneeded 0 cs hbs hzero) (by decide)

theorem acceptedInteger_ecdsaInteger (h : n < 256 ^ k) (hk : k ≤ 66) :
    AcceptedInteger k (ecdsaInteger n) n := by
  have hlen := length_ecdsaInteger_le h hk
  have hshort : (integerBytes n).length < 2 ^ 32 := by
    rw [ecdsaInteger, length_element] at hlen
    omega
  have haccepted : AcceptedInteger k (ecdsaInteger n) (ofBE (integerBytes n)) :=
    AcceptedInteger.mk (asn1Length_lengthBytes hshort)
      (isSkippedContents_of_isIntegerContents (isIntegerContents_integerBytes n))
      (by rwa [ofBE_integerBytes])
  rwa [ofBE_integerBytes] at haccepted

theorem ecdsaReadDer_ecdsaSignature (hr : r < 256 ^ k) (hs : s < 256 ^ k) (hk : k ≤ 66) :
    ecdsaReadDer (ecdsaSignature r s) k = .ok (toBE k r ++ toBE k s) := by
  have hlt := length_ecdsaSignature_lt hr hs hk
  rw [ecdsaSignature, length_element] at hlt
  rw [ecdsaReadDer_iff]
  exact ⟨_, _, _, r, s, asn1Length_lengthBytes (by omega), rfl,
    acceptedInteger_ecdsaInteger hr hk, acceptedInteger_ecdsaInteger hs hk, rfl⟩

theorem ecdsaCoordinateSize_le {bits : Nat} (hmax : maxBits ∈ psaVendorEccMaxCurveBits)
    (h : bits ≤ maxBits) :
    ecdsaCoordinateSize bits ≤ 66 ∧ ecdsaCoordinateSize bits ≤ ecdsaCoordinateSize maxBits := by
  have hle : maxBits ≤ 521 := by
    have hall : ∀ m ∈ psaVendorEccMaxCurveBits, m ≤ 521 := by decide
    exact hall maxBits hmax
  unfold ecdsaCoordinateSize
  omega

theorem slice_storeAt {off : Nat} (hoff : off ≤ mem.length) (hn : n ≤ buffer.length) :
    slice (storeAt mem off buffer) off n = buffer.take n := by
  have hlen : (mem.take off).length = off := by
    rw [List.length_take, Nat.min_eq_left hoff]
  unfold slice storeAt
  rw [List.append_assoc, List.drop_left' hlen, List.take_append_of_le_length hn]

theorem slice_two_mul (mem : ByteString) (raw k : Nat) :
    slice mem raw (2 * k) = slice mem raw k ++ slice mem (raw + k) k := by
  unfold slice
  rw [Nat.two_mul, List.take_add, List.drop_drop]

theorem coordinate_eq {bytes : ByteString} (hlen : bytes.length = k) (hv : ofBE bytes = v) :
    v < 256 ^ k ∧ toBE k v = bytes := by
  subst hlen hv
  exact ⟨ofBE_lt bytes, toBE_ofBE bytes⟩

theorem take_storeAt {off : Nat} (hoff : off ≤ mem.length) :
    (storeAt mem off buffer).take off = mem.take off := by
  have hlen : (mem.take off).length = off := by
    rw [List.length_take, Nat.min_eq_left hoff]
  unfold storeAt
  rw [List.append_assoc, List.take_left' hlen]

theorem drop_storeAt {off : Nat} (hoff : off ≤ mem.length) :
    (storeAt mem off buffer).drop (off + buffer.length) = mem.drop (off + buffer.length) := by
  have hlen : (mem.take off ++ buffer).length = off + buffer.length := by
    rw [List.length_append, List.length_take, Nat.min_eq_left hoff]
  unfold storeAt
  rw [List.drop_left' hlen]

theorem mbedtlsEcdsaRawToDer_eq {bits : Nat} (hpos : 0 < bits) (hk : ecdsaCoordinateSize bits ≤ 66)
    (hle : ecdsaCoordinateSize bits ≤ ecdsaCoordinateSize maxBits) {raw der derSize : Nat}
    (hraw : raw + 2 * ecdsaCoordinateSize bits ≤ mem.length) (hder : der + derSize ≤ mem.length)
    (hr : ofBE (slice mem raw (ecdsaCoordinateSize bits)) = r) (hr0 : r ≠ 0)
    (hs : ofBE (slice mem (raw + ecdsaCoordinateSize bits) (ecdsaCoordinateSize bits)) = s)
    (hs0 : s ≠ 0) :
    (derSize < (ecdsaSignature r s).length →
      (mbedtlsEcdsaRawToDer maxBits bits mem raw (2 * ecdsaCoordinateSize bits) der derSize).1 =
        .error .bufTooSmall) ∧
    ((ecdsaSignature r s).length ≤ derSize →
      mbedtlsEcdsaRawToDer maxBits bits mem raw (2 * ecdsaCoordinateSize bits) der derSize =
        (.ok (ecdsaSignature r s).length,
          storeAt mem der (ecdsaSignature r s ++
            ((slice mem der derSize).take (derSize - (ecdsaSignature r s).length) ++
              ecdsaSignature r s).drop (ecdsaSignature r s).length))) := by
  have hlenr : (slice mem raw (ecdsaCoordinateSize bits)).length = ecdsaCoordinateSize bits := by
    rw [length_slice]
    omega
  have hlens : (slice mem (raw + ecdsaCoordinateSize bits) (ecdsaCoordinateSize bits)).length =
      ecdsaCoordinateSize bits := by
    rw [length_slice]
    omega
  have hspace : (slice mem der derSize).length = derSize := by
    rw [length_slice]
    omega
  have hwrites := ecdsaWriteDer_writes (by rwa [hr]) (by rwa [hs]) hlenr hlens hk
    { space := slice mem der derSize, data := [] }
  rw [hr, hs] at hwrites
  unfold mbedtlsEcdsaRawToDer
  simp only
  rw [if_neg (by omega), if_neg (by simp), if_neg (Nat.not_lt.mpr hle)]
  generalize ecdsaSignature r s = sig at hwrites ⊢
  constructor
  · intro hsmall
    have hret := hwrites.of_lt (by rw [hspace]; exact hsmall)
    rw [hret]
  intro hroom
  rw [hwrites.of_le (by rw [hspace]; exact hroom)]
  unfold Asn1Writer.returns Asn1Writer.after
  simp only [Int.toNat_natCast, List.append_nil, List.take_length, hspace]
  congr 2
  unfold storeAt
  rw [List.take_zero, List.nil_append, Nat.zero_add]

/-- The two conversions. The first part is about a signature whose numbers are not 0 and any
buffers in one memory; the second about any bytes. -/
theorem ecdsa_signature_round_trip {maxBits : Nat} (hmax : maxBits ∈ psaVendorEccMaxCurveBits)
    (mem : ByteString) (raw der derSize : Nat) (hder : der + derSize ≤ mem.length) :
    (∀ bits r s, 0 < bits → bits ≤ maxBits →
      raw + 2 * ecdsaCoordinateSize bits ≤ mem.length →
      ofBE (slice mem raw (ecdsaCoordinateSize bits)) = r → r ≠ 0 →
      ofBE (slice mem (raw + ecdsaCoordinateSize bits) (ecdsaCoordinateSize bits)) = s → s ≠ 0 →
      (derSize < (ecdsaSignature r s).length ∧
        (mbedtlsEcdsaRawToDer maxBits bits mem raw (2 * ecdsaCoordinateSize bits) der derSize).1 =
          .error .bufTooSmall) ∨
      ((ecdsaSignature r s).length ≤ derSize ∧
        ∃ mem', mbedtlsEcdsaRawToDer maxBits bits mem raw (2 * ecdsaCoordinateSize bits) der
            derSize = (.ok (ecdsaSignature r s).length, mem') ∧
          slice mem' der (ecdsaSignature r s).length = ecdsaSignature r s ∧
          mem'.length = mem.length ∧ mem'.take der = mem.take der ∧
          mem'.drop (der + derSize) = mem.drop (der + derSize) ∧
          ∀ raw' rawSize, 2 * ecdsaCoordinateSize bits ≤ rawSize →
            mbedtlsEcdsaDerToRaw maxBits bits mem' der (ecdsaSignature r s).length raw' rawSize =
              (.ok (2 * ecdsaCoordinateSize bits),
                storeAt mem' raw' (slice mem raw (2 * ecdsaCoordinateSize bits))))) ∧
    (∀ bits rawSize,
      (mbedtlsEcdsaDerToRaw maxBits bits mem der derSize raw rawSize).1 ≠ .error .outOfBounds ∧
      (∀ err, (mbedtlsEcdsaDerToRaw maxBits bits mem der derSize raw rawSize).1 = .error err →
        (mbedtlsEcdsaDerToRaw maxBits bits mem der derSize raw rawSize).2 = mem) ∧
      (∀ n, (mbedtlsEcdsaDerToRaw maxBits bits mem der derSize raw rawSize).1 = .ok n →
        ∃ lenBytes contents, Asn1Length contents.length lenBytes ∧
          slice mem der derSize = mbedtlsAsn1ConstructedSequence :: (lenBytes ++ contents))) := by
  constructor
  · intro bits r s hpos hbits hraw hr hr0 hs hs0
    obtain ⟨hk, hle⟩ := ecdsaCoordinateSize_le hmax hbits
    obtain ⟨hsmall, hwritten⟩ := mbedtlsEcdsaRawToDer_eq hpos hk hle hraw hder hr hr0 hs hs0
    rcases Nat.lt_or_ge derSize (ecdsaSignature r s).length with hlt | hroom
    · exact Or.inl ⟨hlt, hsmall hlt⟩
    refine Or.inr ⟨hroom, _, hwritten hroom, ?_⟩
    have hlenr : (slice mem raw (ecdsaCoordinateSize bits)).length =
        ecdsaCoordinateSize bits := by
      rw [length_slice]
      omega
    have hlens : (slice mem (raw + ecdsaCoordinateSize bits)
        (ecdsaCoordinateSize bits)).length = ecdsaCoordinateSize bits := by
      rw [length_slice]
      omega
    obtain ⟨hrlt, hrbytes⟩ := coordinate_eq hlenr hr
    obtain ⟨hslt, hsbytes⟩ := coordinate_eq hlens hs
    have hread := ecdsaReadDer_ecdsaSignature hrlt hslt hk
    rw [hrbytes, hsbytes, ← slice_two_mul] at hread
    generalize hsig : ecdsaSignature r s = sig at hroom hread ⊢
    generalize hbuffer : sig ++ ((slice mem der derSize).take (derSize - sig.length) ++
      sig).drop sig.length = buffer
    have hlen : buffer.length = derSize := by
      rw [← hbuffer, List.length_append, List.length_drop, List.length_append, List.length_take,
        length_slice]
      omega
    have hslice : slice (storeAt mem der buffer) der sig.length = sig := by
      rw [slice_storeAt (by omega) (by omega), ← hbuffer, List.take_left]
    refine ⟨hslice, ?_, ?_, ?_, ?_⟩
    · exact length_storeAt (by omega)
    · exact take_storeAt (by omega)
    · rw [← hlen]
      exact drop_storeAt (by omega)
    · intro raw' rawSize hsize
      unfold mbedtlsEcdsaDerToRaw
      rw [if_neg (by omega), if_neg (by omega), if_neg (by omega), hslice, hread]
  · intro bits rawSize
    unfold mbedtlsEcdsaDerToRaw
    simp only
    split
    · exact ⟨by simp, fun _ _ => rfl, by rintro n ⟨⟩⟩
    split
    · exact ⟨by simp, fun _ _ => rfl, by rintro n ⟨⟩⟩
    split
    · exact ⟨by simp, fun _ _ => rfl, by rintro n ⟨⟩⟩
    have hin := ecdsaReadDer_inBounds (slice mem der derSize) (ecdsaCoordinateSize bits)
    rcases hread : ecdsaReadDer (slice mem der derSize) (ecdsaCoordinateSize bits) with err | tmp
    · refine ⟨?_, fun _ _ => rfl, by rintro n ⟨⟩⟩
      rintro ⟨⟩
      exact hin hread
    · refine ⟨by simp, by rintro err ⟨⟩, ?_⟩
      intro n _
      obtain ⟨lenBytes, e₁, e₂, r, s, hlen, hbytes, _⟩ := ecdsaReadDer_iff.mp hread
      exact ⟨lenBytes, e₁ ++ e₂, hlen, hbytes⟩

/-- The coordinates 1 and 2 of a curve of 8 bits, in the buffer that takes the DER form. -/
theorem ecdsa_signature_round_trip_overlap :
    ∃ mem', mbedtlsEcdsaRawToDer 256 8 [1, 2, 0, 0, 0, 0, 0, 0, 0] 0 2 0 9 = (.ok 8, mem') ∧
      slice mem' 0 8 = ecdsaSignature 1 2 ∧
      mbedtlsEcdsaDerToRaw 256 8 mem' 0 8 0 2 = (.ok 2, storeAt mem' 0 [1, 2]) := by
  obtain ⟨hwrite, _⟩ := @ecdsa_signature_round_trip 256 (by decide)
    [1, 2, 0, 0, 0, 0, 0, 0, 0] 0 0 9 (by decide)
  rcases hwrite 8 1 2 (by decide) (by decide) (by decide) (by decide) (by decide) (by decide)
    (by decide) with ⟨hsmall, _⟩ | ⟨_, mem', hrun, hslice, _, _, _, hread⟩
  · exact absurd hsmall (by decide +kernel)
  · exact ⟨mem', hrun, hslice, hread 0 2 (by decide)⟩

/-! ## Encodings -/

/-- Three byte strings for the signature (1, 1): the second has a zero that is not needed in the
first INTEGER, the third a long form of the length of the SEQUENCE. -/
theorem ecdsa_encoding_not_unique :
    mbedtlsEcdsaDerToRaw 256 8 [0x30, 6, 2, 1, 1, 2, 1, 1, 0, 0] 0 8 8 2 =
      (.ok 2, [0x30, 6, 2, 1, 1, 2, 1, 1] ++ [1, 1]) ∧
    mbedtlsEcdsaDerToRaw 256 8 [0x30, 7, 2, 2, 0, 1, 2, 1, 1, 0, 0] 0 9 9 2 =
      (.ok 2, [0x30, 7, 2, 2, 0, 1, 2, 1, 1] ++ [1, 1]) ∧
    mbedtlsEcdsaDerToRaw 256 8 [0x30, 0x81, 6, 2, 1, 1, 2, 1, 1, 0, 0] 0 9 9 2 =
      (.ok 2, [0x30, 0x81, 6, 2, 1, 1, 2, 1, 1] ++ [1, 1]) := by
  decide +kernel

/-- A byte string that is accepted for the numbers `r` and `s`. -/
def EncodesSignature (coordinateSize : Nat) (y : ByteString) (r s : Nat) : Prop :=
  ∃ lenBytes e₁ e₂, Asn1Length (e₁ ++ e₂).length lenBytes ∧
    y = mbedtlsAsn1ConstructedSequence :: (lenBytes ++ (e₁ ++ e₂)) ∧
    AcceptedInteger coordinateSize e₁ r ∧ AcceptedInteger coordinateSize e₂ s

def IsDerSignature (y : ByteString) : Prop :=
  ∃ c₁ c₂, IsIntegerContents c₁ ∧ IsIntegerContents c₂ ∧
    y = element mbedtlsAsn1ConstructedSequence
      (element mbedtlsAsn1Integer c₁ ++ element mbedtlsAsn1Integer c₂)

theorem length_asn1Length {lenBytes : ByteString} (h : Asn1Length n lenBytes) :
    lenBytes.length ≤ 5 := by
  cases h with
  | short h => simp
  | long digits hpos hle h =>
    rw [List.length_cons]
    omega

theorem asn1Element_unique {tag : UInt8} {l l' c c' rest rest' : ByteString}
    (hlen : Asn1Length c.length l) (hlen' : Asn1Length c'.length l')
    (h : tag :: (l ++ c) ++ rest = tag :: (l' ++ c') ++ rest') : c = c' ∧ rest = rest' := by
  have hget : mbedtlsAsn1GetTag (tag :: (l ++ c) ++ rest) tag = .ok (c.length, c ++ rest) := by
    rw [mbedtlsAsn1GetTag_iff]
    exact ⟨l, hlen, by simp, by simp⟩
  have hget' : mbedtlsAsn1GetTag (tag :: (l' ++ c') ++ rest') tag =
      .ok (c'.length, c' ++ rest') := by
    rw [mbedtlsAsn1GetTag_iff]
    exact ⟨l', hlen', by simp, by simp⟩
  rw [h, hget', Except.ok.injEq, Prod.mk.injEq] at hget
  exact List.append_inj hget.2.symm hget.1.symm

theorem EncodesSignature.eq_of_der {y : ByteString} (h : EncodesSignature k y r s)
    (hder : IsDerSignature y) : y = ecdsaSignature r s := by
  obtain ⟨lenBytes, e₁, e₂, hlen, hy, haccepted₁, haccepted₂⟩ := h
  obtain ⟨c₁, c₂, hc₁, hc₂, hy'⟩ := hder
  have hbody : (element mbedtlsAsn1Integer c₁ ++ element mbedtlsAsn1Integer c₂).length <
      2 ^ 32 := by
    have hall := congrArg List.length hy
    rw [hy', length_element] at hall
    simp only [List.length_cons, List.length_append] at hall hlen
    have hlt := asn1Length_lt hlen
    have hle := length_asn1Length hlen
    rw [length_lengthBytes] at hall
    by_contra hge
    rw [Nat.not_lt, List.length_append] at hge
    have hcount := lt_byteCount.mpr (show 256 ^ 4 ≤ _ from hge)
    split at hall <;> omega
  have hparts := hbody
  rw [List.length_append, length_element, length_element] at hparts
  cases haccepted₁ with
  | @mk l₁ d₁ hlen₁ hd₁ _ =>
  cases haccepted₂ with
  | @mk l₂ d₂ hlen₂ hd₂ _ =>
    have houter : mbedtlsAsn1ConstructedSequence :: (lengthBytes (element mbedtlsAsn1Integer c₁ ++
          element mbedtlsAsn1Integer c₂).length ++
          (element mbedtlsAsn1Integer c₁ ++ element mbedtlsAsn1Integer c₂)) ++ [] =
        mbedtlsAsn1ConstructedSequence :: (lenBytes ++ (mbedtlsAsn1Integer :: (l₁ ++ d₁) ++
          mbedtlsAsn1Integer :: (l₂ ++ d₂))) ++ [] := by
      rw [List.append_nil, List.append_nil, ← hy]
      exact hy'.symm
    obtain ⟨hsplit, _⟩ := asn1Element_unique (asn1Length_lengthBytes hbody) hlen houter
    obtain ⟨rfl, hsecond⟩ := asn1Element_unique (asn1Length_lengthBytes (by omega)) hlen₁ hsplit
    have hsecond' : mbedtlsAsn1Integer :: (lengthBytes c₂.length ++ c₂) ++ [] =
        mbedtlsAsn1Integer :: (l₂ ++ d₂) ++ [] := by
      rw [List.append_nil, List.append_nil]
      exact hsecond
    obtain ⟨rfl, _⟩ := asn1Element_unique (asn1Length_lengthBytes (by omega)) hlen₂ hsecond'
    rw [hy', ecdsaSignature, ecdsaInteger, ecdsaInteger, ← (isIntegerContents_iff c₁).mp hc₁,
      ← (isIntegerContents_iff c₂).mp hc₂]

theorem mbedtlsEcdsaDerToRaw_ok {bits der raw rawSize : Nat} {mem' : ByteString}
    (h : mbedtlsEcdsaDerToRaw maxBits bits mem der derLen raw rawSize = (.ok n, mem')) :
    0 < bits ∧ ecdsaCoordinateSize bits * 2 ≤ rawSize ∧
      ecdsaCoordinateSize bits ≤ ecdsaCoordinateSize maxBits ∧
      n = 2 * ecdsaCoordinateSize bits ∧
      ∃ r s, EncodesSignature (ecdsaCoordinateSize bits) (slice mem der derLen) r s ∧
        mem' = storeAt mem raw
          (toBE (ecdsaCoordinateSize bits) r ++ toBE (ecdsaCoordinateSize bits) s) := by
  unfold mbedtlsEcdsaDerToRaw at h
  simp only at h
  split at h
  · cases h
  split at h
  · cases h
  split at h
  · cases h
  rcases hread : ecdsaReadDer (slice mem der derLen) (ecdsaCoordinateSize bits) with err | tmp
  · rw [hread] at h
    cases h
  rw [hread] at h
  cases h
  obtain ⟨lenBytes, e₁, e₂, r, s, hlen, hy, haccepted₁, haccepted₂, rfl⟩ :=
    ecdsaReadDer_iff.mp hread
  refine ⟨by omega, by omega, by omega, rfl, r, s, ?_, rfl⟩
  exact ⟨lenBytes, e₁, e₂, hlen, hy, haccepted₁, haccepted₂⟩

theorem AcceptedInteger.lt {e : ByteString} (h : AcceptedInteger k e v) : v < 256 ^ k := by
  cases h
  assumption

theorem EncodesSignature.lt {y : ByteString} (h : EncodesSignature k y r s) :
    r < 256 ^ k ∧ s < 256 ^ k := by
  obtain ⟨_, _, _, _, _, haccepted₁, haccepted₂⟩ := h
  exact ⟨haccepted₁.lt, haccepted₂.lt⟩

theorem toBE_append_inj {r' s' : Nat} (hr : r < 256 ^ k) (hs : s < 256 ^ k) (hr' : r' < 256 ^ k)
    (hs' : s' < 256 ^ k) (h : toBE k r ++ toBE k s = toBE k r' ++ toBE k s') : r = r' ∧ s = s' := by
  obtain ⟨hfirst, hsecond⟩ := List.append_inj h (by rw [length_toBE, length_toBE])
  have hvalr := congrArg ofBE hfirst
  have hvals := congrArg ofBE hsecond
  rw [ofBE_toBE, ofBE_toBE, Nat.mod_eq_of_lt hr, Nat.mod_eq_of_lt hr'] at hvalr
  rw [ofBE_toBE, ofBE_toBE, Nat.mod_eq_of_lt hs, Nat.mod_eq_of_lt hs'] at hvals
  exact ⟨hvalr, hvals⟩

/-- Byte strings that are converted to the same raw signature are encodings of the same numbers, of
which one is DER; that one is written for numbers that are not 0. -/
theorem ecdsa_encodings {maxBits : Nat} (hmax : maxBits ∈ psaVendorEccMaxCurveBits)
    {bits der₁ len₁ raw₁ size₁ n₁ der₂ len₂ raw₂ size₂ n₂ : Nat}
    {mem₁ mem₁' mem₂ mem₂' : ByteString}
    (h₁ : mbedtlsEcdsaDerToRaw maxBits bits mem₁ der₁ len₁ raw₁ size₁ = (.ok n₁, mem₁'))
    (h₂ : mbedtlsEcdsaDerToRaw maxBits bits mem₂ der₂ len₂ raw₂ size₂ = (.ok n₂, mem₂'))
    (hin₁ : raw₁ + size₁ ≤ mem₁.length) (hin₂ : raw₂ + size₂ ≤ mem₂.length)
    (hsame : slice mem₁' raw₁ n₁ = slice mem₂' raw₂ n₂) :
    ∃ r s, EncodesSignature (ecdsaCoordinateSize bits) (slice mem₁ der₁ len₁) r s ∧
      EncodesSignature (ecdsaCoordinateSize bits) (slice mem₂ der₂ len₂) r s ∧
      (IsDerSignature (slice mem₁ der₁ len₁) → slice mem₁ der₁ len₁ = ecdsaSignature r s) ∧
      (IsDerSignature (slice mem₁ der₁ len₁) → IsDerSignature (slice mem₂ der₂ len₂) →
        slice mem₁ der₁ len₁ = slice mem₂ der₂ len₂) ∧
      (r ≠ 0 → s ≠ 0 → ∀ mem raw der derSize,
        raw + 2 * ecdsaCoordinateSize bits ≤ mem.length → der + derSize ≤ mem.length →
        slice mem raw (2 * ecdsaCoordinateSize bits) = slice mem₁' raw₁ n₁ →
        (ecdsaSignature r s).length ≤ derSize →
        ∃ mem', mbedtlsEcdsaRawToDer maxBits bits mem raw (2 * ecdsaCoordinateSize bits) der
            derSize = (.ok (ecdsaSignature r s).length, mem') ∧
          slice mem' der (ecdsaSignature r s).length = ecdsaSignature r s) := by
  obtain ⟨hpos, hsize₁, hle, rfl, r, s, henc₁, rfl⟩ := mbedtlsEcdsaDerToRaw_ok h₁
  obtain ⟨_, hsize₂, _, rfl, r', s', henc₂, rfl⟩ := mbedtlsEcdsaDerToRaw_ok h₂
  obtain ⟨hk, _⟩ := ecdsaCoordinateSize_le hmax le_rfl
  have hk' : ecdsaCoordinateSize bits ≤ 66 := hle.trans hk
  obtain ⟨hr, hs⟩ := henc₁.lt
  obtain ⟨hr', hs'⟩ := henc₂.lt
  have hraw : ∀ {mem : ByteString} {raw size a b : Nat}, raw + size ≤ mem.length →
      slice (storeAt mem raw (toBE (ecdsaCoordinateSize bits) a ++
        toBE (ecdsaCoordinateSize bits) b)) raw (2 * ecdsaCoordinateSize bits) =
      toBE (ecdsaCoordinateSize bits) a ++ toBE (ecdsaCoordinateSize bits) b := by
    intro mem raw size a b hin
    have hlen : (toBE (ecdsaCoordinateSize bits) a ++ toBE (ecdsaCoordinateSize bits) b).length =
        2 * ecdsaCoordinateSize bits := by
      rw [List.length_append, length_toBE, length_toBE, Nat.two_mul]
    rw [slice_storeAt (by omega) hlen.ge, ← hlen, List.take_length]
  rw [hraw hin₁, hraw hin₂] at hsame
  obtain ⟨rfl, rfl⟩ := toBE_append_inj hr hs hr' hs' hsame
  refine ⟨r, s, henc₁, henc₂, henc₁.eq_of_der, ?_, ?_⟩
  · intro hder₁ hder₂
    rw [henc₁.eq_of_der hder₁, henc₂.eq_of_der hder₂]
  intro hr0 hs0 mem raw der derSize hbound hder hslice hroom
  rw [hraw hin₁, slice_two_mul] at hslice
  obtain ⟨hfirst, hsecond⟩ := List.append_inj hslice (by
    rw [length_slice, length_toBE]
    omega)
  have hvalr : ofBE (slice mem raw (ecdsaCoordinateSize bits)) = r := by
    rw [hfirst, ofBE_toBE, Nat.mod_eq_of_lt hr]
  have hvals : ofBE (slice mem (raw + ecdsaCoordinateSize bits) (ecdsaCoordinateSize bits)) =
      s := by
    rw [hsecond, ofBE_toBE, Nat.mod_eq_of_lt hs]
  obtain ⟨_, hwritten⟩ := mbedtlsEcdsaRawToDer_eq hpos hk' hle hbound hder hvalr hr0 hvals hs0
  refine ⟨_, hwritten hroom, ?_⟩
  rw [slice_storeAt (by omega) (by simp), List.take_left]

/-- Two of the byte strings for the signature (1, 1). -/
theorem ecdsa_encodings_one_one :
    ∃ r s, EncodesSignature 1 [0x30, 6, 2, 1, 1, 2, 1, 1] r s ∧
      EncodesSignature 1 [0x30, 7, 2, 2, 0, 1, 2, 1, 1] r s := by
  have hfirst : mbedtlsEcdsaDerToRaw 256 8 [0x30, 6, 2, 1, 1, 2, 1, 1, 0, 0] 0 8 8 2 =
      (.ok 2, [0x30, 6, 2, 1, 1, 2, 1, 1] ++ [1, 1]) := by
    decide +kernel
  have hsecond : mbedtlsEcdsaDerToRaw 256 8 [0x30, 7, 2, 2, 0, 1, 2, 1, 1, 0, 0] 0 9 9 2 =
      (.ok 2, [0x30, 7, 2, 2, 0, 1, 2, 1, 1] ++ [1, 1]) := by
    decide +kernel
  obtain ⟨r, s, henc₁, henc₂, _⟩ := @ecdsa_encodings 256 (by decide) _ _ _ _ _ _ _ _ _ _ _
    _ _ _ _ hfirst hsecond (by decide) (by decide) (by decide)
  exact ⟨r, s, henc₁, henc₂⟩

end TfPsaCrypto
