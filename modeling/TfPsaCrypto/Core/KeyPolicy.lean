import TfPsaCrypto.Core.Algorithm

/-!
# Key policies

The permission check (`psa_key_policy_permits`) and the intersection made when a key is copied
(`psa_restrict_key_policy`).
-/

namespace TfPsaCrypto

/-! ## The checks of the core -/

/-- Permission to sign or verify hashes includes messages. -/
def psaExtendKeyUsageFlags (usage : PsaKeyUsage) : PsaKeyUsage :=
  let usage := if usage &&& 0x1000 ≠ 0 then usage ||| 0x0400 else usage
  if usage &&& 0x2000 ≠ 0 then usage ||| 0x0800 else usage

def psaMacKeyCanDo (alg : PsaAlgorithm) (keyType : PsaKeyType) : PsaStatus :=
  if psaAlgIsHmac alg ∧ keyType = psaKeyTypeHmac then .success
  else if psaAlgIsBlockCipherMac alg ∧
      keyType &&& psaKeyTypeCategoryMask = psaKeyTypeCategorySymmetric ∧
      psaBlockCipherBlockLength keyType > 1 then .success
  else .errorInvalidArgument

def SameSign (alg1 alg2 : PsaAlgorithm) : Prop :=
  psaAlgIsSignHash alg1 ∧ psaAlgIsSignHash alg2 ∧
    alg1 &&& ~~~psaAlgHashMask = alg2 &&& ~~~psaAlgHashMask

def SameAead (alg1 alg2 : PsaAlgorithm) : Prop :=
  psaAlgIsAead alg1 ∧ psaAlgIsAead alg2 ∧
    psaAlgAeadWithShortenedTag alg1 0 = psaAlgAeadWithShortenedTag alg2 0

def SameMac (alg1 alg2 : PsaAlgorithm) : Prop :=
  psaAlgIsMac alg1 ∧ psaAlgIsMac alg2 ∧ psaAlgFullLengthMac alg1 = psaAlgFullLengthMac alg2

instance (alg1 alg2 : PsaAlgorithm) : Decidable (SameSign alg1 alg2) :=
  inferInstanceAs (Decidable (_ ∧ _ ∧ _))

instance (alg1 alg2 : PsaAlgorithm) : Decidable (SameAead alg1 alg2) :=
  inferInstanceAs (Decidable (_ ∧ _ ∧ _))

instance (alg1 alg2 : PsaAlgorithm) : Decidable (SameMac alg1 alg2) :=
  inferInstanceAs (Decidable (_ ∧ _ ∧ _))

/-- 0 allows no operation. -/
def psaKeyPolicyAlgorithmIntersection (keyType : PsaKeyType)
    (alg1 alg2 : PsaAlgorithm) : PsaAlgorithm :=
  let tag1 := psaAlgAeadGetTagLength alg1
  let tag2 := psaAlgAeadGetTagLength alg2
  let len1 := psaMacLength keyType alg1
  let len2 := psaMacLength keyType alg2
  if alg1 = alg2 then alg1
  -- the same hash-and-sign family, one side with any hash
  else if SameSign alg1 alg2 ∧ psaAlgSignGetHash alg1 = psaAlgAnyHash then alg2
  else if SameSign alg1 alg2 ∧ psaAlgSignGetHash alg2 = psaAlgAnyHash then alg1
  -- the same AEAD, at least one side with a minimum tag length
  else if SameAead alg1 alg2 ∧ atLeastThisLength alg1 ∧ atLeastThisLength alg2 then
    psaAlgAeadWithAtLeastThisLengthTag alg1 (if tag1 > tag2 then tag1 else tag2)
  else if SameAead alg1 alg2 ∧ atLeastThisLength alg1 ∧ tag1 ≤ tag2 then alg2
  else if SameAead alg1 alg2 ∧ atLeastThisLength alg2 ∧ tag2 ≤ tag1 then alg1
  else if SameMac alg1 alg2 then
    if psaMacKeyCanDo alg1 keyType ≠ .success then 0
    else if atLeastThisLength alg1 ∧ atLeastThisLength alg2 then
      psaAlgAtLeastThisLengthMac alg1 (if len1 > len2 then len1 else len2)
    else if atLeastThisLength alg1 then
      if len1 ≤ len2 then alg2 else 0
    else if atLeastThisLength alg2 then
      if len2 ≤ len1 then alg1 else 0
    -- a default-length policy may still meet a specific length
    else if len1 = len2 then psaAlgTruncatedMac alg1 len1
    else 0
  else 0

/-- The MAC case can fall through to the last two tests. -/
def psaKeyAlgorithmPermits (keyType : PsaKeyType)
    (policyAlg requestedAlg : PsaAlgorithm) : Bool :=
  let requestedOutputLength := psaMacLength keyType requestedAlg
  let defaultOutputLength := psaMacLength keyType (psaAlgFullLengthMac requestedAlg)
  if requestedAlg = policyAlg then true
  else if psaAlgIsSignHash requestedAlg ∧
      psaAlgSignGetHash policyAlg = psaAlgAnyHash then
    policyAlg &&& ~~~psaAlgHashMask = requestedAlg &&& ~~~psaAlgHashMask
  else if SameAead policyAlg requestedAlg ∧ atLeastThisLength policyAlg then
    psaAlgAeadGetTagLength policyAlg ≤ psaAlgAeadGetTagLength requestedAlg
  else if SameMac policyAlg requestedAlg ∧ psaMacKeyCanDo policyAlg keyType ≠ .success then false
  else if SameMac policyAlg requestedAlg ∧ psaMacTruncatedLength policyAlg = 0 then
    requestedOutputLength = defaultOutputLength
  else if SameMac policyAlg requestedAlg ∧ psaMacTruncatedLength requestedAlg = 0 ∧
      psaMacTruncatedLength policyAlg = defaultOutputLength then true
  else if SameMac policyAlg requestedAlg ∧ atLeastThisLength policyAlg then
    psaMacTruncatedLength policyAlg ≤ requestedOutputLength
  else if psaAlgIsRawKeyAgreement policyAlg ∧ psaAlgIsKeyAgreement requestedAlg then
    psaAlgKeyAgreementGetBase requestedAlg = policyAlg
  else if policyAlg = psaAlgJpakeBeta ∧ psaAlgIsJpake requestedAlg then true
  else false

def psaKeyPolicyPermits (policy : PsaKeyPolicy) (keyType : PsaKeyType)
    (alg : PsaAlgorithm) : PsaStatus :=
  if alg = 0 then .errorInvalidArgument
  else if psaAlgIsWildcard alg then .errorInvalidArgument
  else if psaKeyAlgorithmPermits keyType policy.alg alg ||
      psaKeyAlgorithmPermits keyType policy.alg2 alg then .success
  else .errorNotPermitted

def psaRestrictKeyPolicy (keyType : PsaKeyType) (policy constraint : PsaKeyPolicy) :
    PsaStatus × PsaKeyPolicy :=
  let intersectionAlg := psaKeyPolicyAlgorithmIntersection keyType policy.alg constraint.alg
  let intersectionAlg2 := psaKeyPolicyAlgorithmIntersection keyType policy.alg2 constraint.alg2
  if intersectionAlg = 0 ∧ policy.alg ≠ 0 ∧ constraint.alg ≠ 0 then
    (.errorInvalidArgument, policy)
  else if intersectionAlg2 = 0 ∧ policy.alg2 ≠ 0 ∧ constraint.alg2 ≠ 0 then
    (.errorInvalidArgument, policy)
  else
    (.success,
      { usage := policy.usage &&& constraint.usage
        alg := intersectionAlg
        alg2 := intersectionAlg2 })

/-! ## Families are disjoint -/

section Families

variable {x y : PsaAlgorithm}

theorem category_of_signHash (h : psaAlgIsSignHash x = true) :
    x &&& psaAlgCategoryMask = 0x06000000 := by
  have hcat : ∀ k : PsaAlgorithm, x &&& ~~~psaAlgHashMask = k →
      x &&& psaAlgCategoryMask = k &&& psaAlgCategoryMask := by
    rintro k rfl
    exact (Masks.and_and_of_subset (by decide)).symm
  have hecdsa : x &&& ~~~psaAlgHashMask &&& ~~~psaAlgEcdsaDeterministicFlag
      = psaAlgEcdsaBase → x &&& psaAlgCategoryMask = 0x06000000 := by
    intro hk
    rw [show (0x06000000 : PsaAlgorithm) = psaAlgEcdsaBase &&& psaAlgCategoryMask by
      decide, ← hk, BitVec.and_assoc, BitVec.and_assoc]
    congr 1
  simp only [psaAlgIsSignHash, psaAlgIsRsaPss, psaAlgIsRsaPkcs1v15Sign,
    psaAlgIsEcdsa, psaAlgIsHashEddsa, Bool.or_eq_true, decide_eq_true_eq] at h
  rcases h with (((h | h) | h) | h) | h
  · rw [hcat _ h]; decide
  · rw [hcat _ h]; decide
  · rw [hcat _ h]; decide
  · exact hecdsa h
  · rw [hcat _ h]; decide

theorem category_of_mac (h : psaAlgIsMac x = true) :
    x &&& psaAlgCategoryMask = psaAlgCategoryMac := by
  simpa [psaAlgIsMac] using h

theorem category_of_aead (h : psaAlgIsAead x = true) :
    x &&& psaAlgCategoryMask = psaAlgCategoryAead := by
  simpa [psaAlgIsAead] using h

theorem signHash_of_signGetHash (h : psaAlgSignGetHash x = psaAlgAnyHash) :
    psaAlgIsSignHash x = true := by
  unfold psaAlgSignGetHash at h
  split at h
  · next hs =>
    simp only [psaAlgIsHashAndSign, Bool.and_eq_true] at hs
    exact hs.1
  · exact absurd h (by decide)

section Category

variable {c : PsaAlgorithm} (hcat : x &&& psaAlgCategoryMask = c)

include hcat

theorem signGetHash_ne_anyHash (hc : c ≠ 0x06000000) :
    psaAlgSignGetHash x ≠ psaAlgAnyHash := fun h =>
  hc (hcat.symm.trans (category_of_signHash (signHash_of_signGetHash h)))

theorem not_aead (hc : c ≠ psaAlgCategoryAead) : psaAlgIsAead x = false := by
  simpa [psaAlgIsAead, hcat] using hc

theorem not_mac (hc : c ≠ psaAlgCategoryMac) : psaAlgIsMac x = false := by
  simpa [psaAlgIsMac, hcat] using hc

theorem not_rawKeyAgreement (hc : c ≠ psaAlgCategoryKeyAgreement) :
    psaAlgIsRawKeyAgreement x = false := by
  simp [psaAlgIsRawKeyAgreement, psaAlgIsKeyAgreement, hcat, hc]

theorem ne_jpakeBeta (hc : c ≠ 0x0a000000) : x ≠ psaAlgJpakeBeta := by
  rintro rfl
  exact hc (hcat.symm.trans (by decide))

end Category

end Families

/-! ## What each family of policies permits -/

section Permits

variable {keyType : PsaKeyType} {p a : PsaAlgorithm}

theorem permits_zero_iff : psaKeyAlgorithmPermits keyType 0 a = true ↔ a = 0 := by
  have hnot : ¬ SameAead 0 a ∧ ¬ SameMac 0 a := by
    constructor <;> exact fun h => absurd h.1 (by decide)
  have hsign : psaAlgSignGetHash 0 ≠ psaAlgAnyHash := by decide
  have hka : psaAlgIsRawKeyAgreement 0 = false := by decide
  have hjpake : (0 : PsaAlgorithm) ≠ psaAlgJpakeBeta := by decide
  unfold psaKeyAlgorithmPermits
  simp only [hnot, hsign, hka, hjpake, and_false, false_and, if_false, Bool.false_eq_true]
  by_cases h : a = 0
  · simp [h]
  · simp

theorem permits_sign_iff (h : psaAlgIsSignHash p = true) :
    psaKeyAlgorithmPermits keyType p a = true ↔ a = p ∨
      (psaAlgIsSignHash a = true ∧ psaAlgSignGetHash p = psaAlgAnyHash ∧
        p &&& ~~~psaAlgHashMask = a &&& ~~~psaAlgHashMask) := by
  have hcat := category_of_signHash h
  have haead := not_aead hcat (by decide)
  have hmac := not_mac hcat (by decide)
  have hka := not_rawKeyAgreement hcat (by decide)
  have hjpake := ne_jpakeBeta hcat (by decide)
  unfold psaKeyAlgorithmPermits
  by_cases heq : a = p
  · simp [heq]
  have hnotAead : ¬ SameAead p a := fun hs => by simp [hs.1] at haead
  have hnotMac : ¬ SameMac p a := fun hs => by simp [hs.1] at hmac
  by_cases hany : psaAlgIsSignHash a = true ∧ psaAlgSignGetHash p = psaAlgAnyHash
  · simp [heq, hany]
  · simp only [heq, hany, hnotAead, hnotMac, hka, hjpake, false_and, if_false,
      Bool.false_eq_true, false_or, false_iff]
    rintro ⟨ha, hp, _⟩
    exact hany ⟨ha, hp⟩

theorem permits_aead_iff (h : psaAlgIsAead p = true) :
    psaKeyAlgorithmPermits keyType p a = true ↔ a = p ∨
      (SameAead p a ∧ atLeastThisLength p = true ∧
        psaAlgAeadGetTagLength p ≤ psaAlgAeadGetTagLength a) := by
  have hcat := category_of_aead h
  have hsign := signGetHash_ne_anyHash hcat (by decide)
  have hmac := not_mac hcat (by decide)
  have hka := not_rawKeyAgreement hcat (by decide)
  have hjpake := ne_jpakeBeta hcat (by decide)
  unfold psaKeyAlgorithmPermits
  by_cases heq : a = p
  · simp [heq]
  by_cases hwild : SameAead p a ∧ atLeastThisLength p = true
  · rw [if_neg heq, if_neg (by simp [hsign]), if_pos hwild, decide_eq_true_iff]
    simp [heq, hwild]
  have hnotMac : ¬ SameMac p a := fun hs => by simp [hs.1] at hmac
  simp only [heq, hsign, hwild, hnotMac, hka, hjpake, and_false, false_and,
    if_false, Bool.false_eq_true, false_or, false_iff]
  rintro ⟨hsame, hflag, _⟩
  exact hwild ⟨hsame, hflag⟩

theorem permits_mac_iff (h : psaAlgIsMac p = true) :
    psaKeyAlgorithmPermits keyType p a = true ↔ a = p ∨
      (SameMac p a ∧ psaMacKeyCanDo p keyType = .success ∧
        if psaMacTruncatedLength p = 0 then
          psaMacLength keyType a = psaMacLength keyType (psaAlgFullLengthMac a)
        else
          (psaMacTruncatedLength a = 0 ∧ psaMacTruncatedLength p
            = psaMacLength keyType (psaAlgFullLengthMac a)) ∨
          (atLeastThisLength p = true ∧ psaMacTruncatedLength p ≤ psaMacLength keyType a)) := by
  have hcat := category_of_mac h
  have hsign := signGetHash_ne_anyHash hcat (by decide)
  have haead := not_aead hcat (by decide)
  have hka := not_rawKeyAgreement hcat (by decide)
  have hjpake := ne_jpakeBeta hcat (by decide)
  have hnotAead : ¬ SameAead p a := fun hs => by simp [hs.1] at haead
  unfold psaKeyAlgorithmPermits
  by_cases heq : a = p
  · simp [heq]
  rw [if_neg heq, if_neg (by simp [hsign]), if_neg (by simp [hnotAead])]
  by_cases hsame : SameMac p a
  swap
  · simp [heq, hsame, hka, hjpake]
  by_cases hcan : psaMacKeyCanDo p keyType = .success
  swap
  · simp [heq, hsame, hcan]
  simp only [heq, hsame, hcan, true_and, false_or, ne_eq, not_true_eq_false, if_false]
  by_cases hzero : psaMacTruncatedLength p = 0
  · rw [if_pos hzero, if_pos hzero, decide_eq_true_iff]
  rw [if_neg hzero, if_neg hzero]
  by_cases hdefault : psaMacTruncatedLength a = 0 ∧ psaMacTruncatedLength p
      = psaMacLength keyType (psaAlgFullLengthMac a)
  · rw [if_pos hdefault]
    exact iff_of_true rfl (.inl hdefault)
  rw [if_neg hdefault]
  by_cases hflag : atLeastThisLength p = true
  · rw [if_pos hflag, decide_eq_true_iff]
    refine ⟨fun hle => .inr ⟨hflag, hle⟩, ?_⟩
    rintro (hd | ⟨_, hle⟩)
    · exact absurd hd hdefault
    · exact hle
  · simp [hdefault, hflag, hka, hjpake]

end Permits

/-! ## Length policies as sets of lengths

On specific algorithms of its base, a MAC or AEAD policy is a set of lengths: one
length, or every length from a minimum on. -/

section Lengths

variable {keyType : PsaKeyType} {x y p a : PsaAlgorithm}

theorem SameMac.symm (h : SameMac x y) : SameMac y x := ⟨h.2.1, h.1, h.2.2.symm⟩

theorem SameMac.trans {z : PsaAlgorithm} (h : SameMac x y) (h' : SameMac y z) :
    SameMac x z :=
  ⟨h.1, h'.2.1, h.2.2.trans h'.2.2⟩

theorem SameAead.symm (h : SameAead x y) : SameAead y x := ⟨h.2.1, h.1, h.2.2.symm⟩

theorem SameAead.trans {z : PsaAlgorithm} (h : SameAead x y) (h' : SameAead y z) :
    SameAead x z :=
  ⟨h.1, h'.2.1, h.2.2.trans h'.2.2⟩

theorem SameSign.symm (h : SameSign x y) : SameSign y x := ⟨h.2.1, h.1, h.2.2.symm⟩

theorem eq_of_anyHash (h : SameSign x y) (hx : psaAlgSignGetHash x = psaAlgAnyHash)
    (hy : psaAlgSignGetHash y = psaAlgAnyHash) : x = y := by
  have hhash : ∀ z, psaAlgSignGetHash z = psaAlgAnyHash →
      z &&& psaAlgHashMask = psaAlgHashMask := by
    intro z hz
    have hz' := congrArg (· &&& psaAlgHashMask) hz
    unfold psaAlgSignGetHash at hz'
    split at hz'
    · simpa [BitVec.and_or_distrib_right, BitVec.and_assoc, psaAlgHashMask,
        psaAlgCategoryHash, psaAlgAnyHash] using hz'
    · exact absurd hz' (by decide)
  exact Masks.eq_of_and_eq ((hhash x hx).trans (hhash y hy).symm) h.2.2

theorem SameAead.lengthBase_eq (h : SameAead x y) : lengthBase x = lengthBase y := by
  simpa only [psaAlgAeadWithShortenedTag, withLength_zero] using h.2.2

theorem SameMac.lengthBase_eq (h : SameMac x y) : lengthBase x = lengthBase y := h.2.2

theorem sameMac_of_lengthBase_eq (hx : psaAlgIsMac x = true)
    (h : lengthBase x = lengthBase y) : SameMac x y :=
  ⟨hx, psaAlgIsMac_congr h ▸ hx, h⟩

theorem sameAead_of_lengthBase_eq (hx : psaAlgIsAead x = true)
    (h : lengthBase x = lengthBase y) : SameAead x y := by
  refine ⟨hx, psaAlgIsAead_congr h ▸ hx, ?_⟩
  simpa only [psaAlgAeadWithShortenedTag, withLength_zero] using h

theorem SameMac.fullLength_eq (h : SameMac x y) :
    psaMacLength keyType (psaAlgFullLengthMac x)
      = psaMacLength keyType (psaAlgFullLengthMac y) := by
  rw [h.2.2]

theorem SameMac.canDo_eq (h : SameMac x y) :
    psaMacKeyCanDo x keyType = psaMacKeyCanDo y keyType := by
  unfold psaMacKeyCanDo
  rw [psaAlgIsHmac_congr h.lengthBase_eq, psaAlgIsBlockCipherMac_congr h.lengthBase_eq]

def MacLengthFits (keyType : PsaKeyType) (alg : PsaAlgorithm) : Prop :=
  psaAlgIsMac alg = true → psaMacLength keyType alg ≤ psaMacLength keyType (psaAlgFullLengthMac alg)

theorem atLeastThisLength_of_mac (ha : psaAlgIsMac a = true)
    (hspec : psaAlgIsWildcard a = false) : atLeastThisLength a = false := by
  have hsign : psaAlgIsSignHash a ≠ true := fun h => by
    simp [not_mac (category_of_signHash h) (by decide)] at ha
  simpa [psaAlgIsWildcard, psaAlgIsHashAndSign, hsign, ha] using hspec

theorem atLeastThisLength_of_aead (ha : psaAlgIsAead a = true)
    (hspec : psaAlgIsWildcard a = false) : atLeastThisLength a = false := by
  have hsign : psaAlgIsSignHash a ≠ true := fun h => by
    simp [not_aead (category_of_signHash h) (by decide)] at ha
  have hmac := not_mac (category_of_aead ha) (by decide)
  simpa [psaAlgIsWildcard, psaAlgIsHashAndSign, hsign, hmac, ha] using hspec

theorem permits_mac_length_iff (hp : psaAlgIsMac p = true)
    (hcan : psaMacKeyCanDo p keyType = .success)
    (hspec : psaAlgIsWildcard a = false) (hfits : MacLengthFits keyType a) :
    psaKeyAlgorithmPermits keyType p a = true ↔ SameMac p a ∧
      psaMacLength keyType p ≤ psaMacLength keyType a ∧
      (atLeastThisLength p = false → psaMacLength keyType p = psaMacLength keyType a) := by
  have hlenp := psaMacLength_eq keyType p
  have hlena := psaMacLength_eq keyType a
  rw [permits_mac_iff hp]
  constructor
  · rintro (rfl | ⟨hsame, -, hlen⟩)
    · exact ⟨⟨hp, hp, rfl⟩, Nat.le_refl _, fun _ => rfl⟩
    refine ⟨hsame, ?_⟩
    rw [hsame.fullLength_eq] at hlenp
    by_cases hzero : psaMacTruncatedLength p = 0
    · rw [if_pos hzero] at hlen hlenp
      omega
    rw [if_neg hzero] at hlen hlenp
    rcases hlen with ⟨hazero, hfull⟩ | ⟨hflag, hle⟩
    · rw [if_pos hazero] at hlena
      omega
    · exact ⟨by omega, fun hnot => by simp [hflag] at hnot⟩
  · rintro ⟨hsame, hle, hexact⟩
    have hfull := hfits hsame.2.1
    rw [hsame.fullLength_eq] at hlenp
    by_cases heq : a = p
    · exact .inl heq
    refine .inr ⟨hsame, hcan, ?_⟩
    by_cases hzero : psaMacTruncatedLength p = 0
    · rw [if_pos hzero] at hlenp ⊢
      omega
    rw [if_neg hzero] at hlenp ⊢
    by_cases hflag : atLeastThisLength p = true
    · exact .inr ⟨hflag, by omega⟩
    have hlen := hexact (by simpa using hflag)
    by_cases hazero : psaMacTruncatedLength a = 0
    · rw [if_pos hazero] at hlena
      exact .inl ⟨hazero, by omega⟩
    rw [if_neg hazero] at hlena
    refine absurd (eq_of_length_fields hsame.lengthBase_eq.symm ?_ ?_) heq
    · rw [← psaMacTruncatedLength, ← psaMacTruncatedLength]
      omega
    · rw [atLeastThisLength_of_mac hsame.2.1 hspec]
      exact (Bool.eq_false_iff.mpr hflag).symm

theorem permits_aead_length_iff (hp : psaAlgIsAead p = true)
    (hspec : psaAlgIsWildcard a = false) :
    psaKeyAlgorithmPermits keyType p a = true ↔ SameAead p a ∧
      psaAlgAeadGetTagLength p ≤ psaAlgAeadGetTagLength a ∧
      (atLeastThisLength p = false → psaAlgAeadGetTagLength p = psaAlgAeadGetTagLength a) := by
  rw [permits_aead_iff hp]
  constructor
  · rintro (rfl | ⟨hsame, hflag, hle⟩)
    · exact ⟨⟨hp, hp, rfl⟩, Nat.le_refl _, fun _ => rfl⟩
    · exact ⟨hsame, hle, fun hnot => by simp [hflag] at hnot⟩
  rintro ⟨hsame, hle, hexact⟩
  by_cases hflag : atLeastThisLength p = true
  · exact .inr ⟨hsame, hflag, hle⟩
  · have hnot : atLeastThisLength p = false := by simpa using hflag
    refine .inl (eq_of_length_fields hsame.lengthBase_eq.symm (hexact hnot).symm ?_)
    rw [hnot, atLeastThisLength_of_aead hsame.2.1 hspec]

variable (keyType) in
theorem psaMacLength_of_field {z : PsaAlgorithm} {v : Nat} (hsame : SameMac z x)
    (hfield : psaMacTruncatedLength z = v % 64)
    (hv : v = psaMacLength keyType (psaAlgFullLengthMac x) ∨ 0 < v ∧ v < 64) :
    psaMacLength keyType z = v := by
  have hmod := psaMacLength_full_mod keyType x
  rw [psaMacLength_eq, hfield, hsame.fullLength_eq]
  split <;> omega

variable (keyType) in
theorem psaMacLength_range (h : SameMac x y) :
    psaMacLength keyType x = psaMacLength keyType (psaAlgFullLengthMac y) ∨
      0 < psaMacLength keyType x ∧ psaMacLength keyType x < 64 := by
  have hlt := lengthField_lt x
  rw [← psaMacTruncatedLength] at hlt
  rw [psaMacLength_eq, h.fullLength_eq]
  split
  · exact .inl rfl
  · omega

end Lengths

/-! ## The intersection, family by family -/

section Intersection

variable {keyType : PsaKeyType} {x y : PsaAlgorithm}

theorem ite_gt_eq_max (m n : Nat) : (if m > n then m else n) = max m n := by
  split <;> omega

theorem intersection_self :
    psaKeyPolicyAlgorithmIntersection keyType x x = x := by
  simp [psaKeyPolicyAlgorithmIntersection]

theorem intersection_sign (h : SameSign x y) (hne : x ≠ y) :
    psaKeyPolicyAlgorithmIntersection keyType x y =
      if psaAlgSignGetHash x = psaAlgAnyHash then y
      else if psaAlgSignGetHash y = psaAlgAnyHash then x else 0 := by
  have hcat := category_of_signHash h.1
  have haead : ¬ SameAead x y := fun hs =>
    Bool.false_ne_true ((not_aead hcat (by decide)).symm.trans hs.1)
  have hmac : ¬ SameMac x y := fun hs =>
    Bool.false_ne_true ((not_mac hcat (by decide)).symm.trans hs.1)
  simp [psaKeyPolicyAlgorithmIntersection, hne, h, haead, hmac]

theorem intersection_aead (h : SameAead x y) (hne : x ≠ y) :
    psaKeyPolicyAlgorithmIntersection keyType x y =
      let tag1 := psaAlgAeadGetTagLength x
      let tag2 := psaAlgAeadGetTagLength y
      if atLeastThisLength x ∧ atLeastThisLength y then
        psaAlgAeadWithAtLeastThisLengthTag x (max tag1 tag2)
      else if atLeastThisLength x ∧ tag1 ≤ tag2 then y
      else if atLeastThisLength y ∧ tag2 ≤ tag1 then x
      else 0 := by
  have hcat := category_of_aead h.1
  have hsign : ¬ SameSign x y := fun hs =>
    absurd (hcat.symm.trans (category_of_signHash hs.1)) (by decide)
  have hmac : ¬ SameMac x y := fun hs =>
    Bool.false_ne_true ((not_mac hcat (by decide)).symm.trans hs.1)
  simp [psaKeyPolicyAlgorithmIntersection, hne, hsign, h, hmac, ite_gt_eq_max]

theorem intersection_mac (h : SameMac x y) (hne : x ≠ y) :
    psaKeyPolicyAlgorithmIntersection keyType x y =
      let len1 := psaMacLength keyType x
      let len2 := psaMacLength keyType y
      if psaMacKeyCanDo x keyType ≠ .success then 0
      else if atLeastThisLength x ∧ atLeastThisLength y then
        psaAlgAtLeastThisLengthMac x (max len1 len2)
      else if atLeastThisLength x then if len1 ≤ len2 then y else 0
      else if atLeastThisLength y then if len2 ≤ len1 then x else 0
      else if len1 = len2 then psaAlgTruncatedMac x len1
      else 0 := by
  have hcat := category_of_mac h.1
  have hsign : ¬ SameSign x y := fun hs =>
    absurd (hcat.symm.trans (category_of_signHash hs.1)) (by decide)
  have haead : ¬ SameAead x y := fun hs =>
    Bool.false_ne_true ((not_aead hcat (by decide)).symm.trans hs.1)
  simp [psaKeyPolicyAlgorithmIntersection, hne, hsign, haead, h, ite_gt_eq_max]

theorem intersection_other (hne : x ≠ y) (hsign : ¬ SameSign x y)
    (haead : ¬ SameAead x y) (hmac : ¬ SameMac x y) :
    psaKeyPolicyAlgorithmIntersection keyType x y = 0 := by
  simp [psaKeyPolicyAlgorithmIntersection, hne, hsign, haead, hmac]

theorem intersection_comm (keyType : PsaKeyType) (x y : PsaAlgorithm) :
    psaKeyPolicyAlgorithmIntersection keyType x y
      = psaKeyPolicyAlgorithmIntersection keyType y x := by
  by_cases hne : x = y
  · rw [hne]
  have hne' : y ≠ x := fun h => hne h.symm
  by_cases hsign : SameSign x y
  · rw [intersection_sign hsign hne, intersection_sign hsign.symm hne']
    by_cases hx : psaAlgSignGetHash x = psaAlgAnyHash
    · by_cases hy : psaAlgSignGetHash y = psaAlgAnyHash
      · exact absurd (eq_of_anyHash hsign hx hy) hne
      · rw [if_pos hx, if_neg hy, if_pos hx]
    · rw [if_neg hx, if_neg hx]
  by_cases haead : SameAead x y
  · have hwild : ∀ v, psaAlgAeadWithAtLeastThisLengthTag x v
        = psaAlgAeadWithAtLeastThisLengthTag y v :=
      withAtLeastLength_congr haead.lengthBase_eq
    rw [intersection_aead haead hne, intersection_aead haead.symm hne']
    dsimp only
    rw [hwild, Nat.max_comm]
    by_cases hx : atLeastThisLength x = true <;>
      by_cases hy : atLeastThisLength y = true <;> simp [hx, hy]
  by_cases hmac : SameMac x y
  · have hwild : ∀ v, psaAlgAtLeastThisLengthMac x v = psaAlgAtLeastThisLengthMac y v :=
      withAtLeastLength_congr hmac.lengthBase_eq
    have htrunc : ∀ v, psaAlgTruncatedMac x v = psaAlgTruncatedMac y v :=
      withLength_congr hmac.lengthBase_eq
    rw [intersection_mac hmac hne, intersection_mac hmac.symm hne']
    dsimp only
    rw [hwild, htrunc, Nat.max_comm, hmac.canDo_eq]
    by_cases hx : atLeastThisLength x = true <;>
      by_cases hy : atLeastThisLength y = true <;> simp [hx, hy]
    by_cases hlen : psaMacLength keyType x = psaMacLength keyType y
    · simp [hlen]
    · simp [hlen, Ne.symm hlen]
  · rw [intersection_other hne hsign haead hmac,
      intersection_other hne' (fun h => hsign h.symm) (fun h => haead h.symm)
        (fun h => hmac h.symm)]

end Intersection

/-! ## The intersection is sound

The meaning of a policy algorithm is the set of specific algorithms that it
permits. -/

/-- What a policy algorithm permits, a MAC no longer than the full length of its base algorithm. -/
def permitted (keyType : PsaKeyType) (alg : PsaAlgorithm) : Set PsaAlgorithm :=
  { a | a ≠ 0 ∧ psaAlgIsWildcard a = false ∧ MacLengthFits keyType a ∧
    psaKeyAlgorithmPermits keyType alg a = true }

section Sound

variable {keyType : PsaKeyType} {x y a : PsaAlgorithm}

theorem permits_left_sign (hsame : SameSign x y) (hne : x ≠ y) (hzero : a ≠ 0)
    (h : psaKeyAlgorithmPermits keyType (psaKeyPolicyAlgorithmIntersection keyType x y) a = true) :
    psaKeyAlgorithmPermits keyType x a = true := by
  rw [intersection_sign hsame hne] at h
  by_cases hx : psaAlgSignGetHash x = psaAlgAnyHash
  · rw [if_pos hx] at h
    rw [permits_sign_iff hsame.1]
    rcases (permits_sign_iff hsame.2.1).mp h with rfl | ⟨_, hy, _⟩
    · exact .inr ⟨hsame.2.1, hx, hsame.2.2⟩
    · exact absurd (eq_of_anyHash hsame hx hy) hne
  rw [if_neg hx] at h
  split at h
  · exact h
  · exact absurd (permits_zero_iff.mp h) hzero

theorem permits_left_aead (hsame : SameAead x y) (hne : x ≠ y)
    (hspec : psaAlgIsWildcard a = false) (hzero : a ≠ 0)
    (h : psaKeyAlgorithmPermits keyType (psaKeyPolicyAlgorithmIntersection keyType x y) a = true) :
    psaKeyAlgorithmPermits keyType x a = true := by
  rw [intersection_aead hsame hne] at h
  dsimp only at h
  split at h
  · next hboth =>
    -- two minimum lengths: the larger one
    have hbase := lengthBase_withAtLeastLength x
      (max (psaAlgAeadGetTagLength x) (psaAlgAeadGetTagLength y))
    have hlen := lengthField_withAtLeastLength x
      (max (psaAlgAeadGetTagLength x) (psaAlgAeadGetTagLength y))
    have hltx : psaAlgAeadGetTagLength x < 64 := lengthField_lt x
    have hlty : psaAlgAeadGetTagLength y < 64 := lengthField_lt y
    have hwild := (sameAead_of_lengthBase_eq hsame.1 hbase.symm).symm
    obtain ⟨hz, hle, _⟩ := (permits_aead_length_iff hwild.1 hspec).mp h
    rw [psaAlgAeadGetTagLength, hlen] at hle
    refine (permits_aead_length_iff hsame.1 hspec).mpr
      ⟨hwild.symm.trans hz, by omega, fun hnot => ?_⟩
    simp [hboth.1] at hnot
  split at h
  · next hx =>
    obtain ⟨hya, hle, _⟩ := (permits_aead_length_iff hsame.2.1 hspec).mp h
    refine (permits_aead_length_iff hsame.1 hspec).mpr ⟨hsame.trans hya, by omega, fun hnot => ?_⟩
    simp [hx.1] at hnot
  split at h
  · exact h
  · exact absurd (permits_zero_iff.mp h) hzero

theorem permits_left_mac (hsame : SameMac x y) (hne : x ≠ y)
    (hspec : psaAlgIsWildcard a = false) (hfits : MacLengthFits keyType a)
    (hzero : a ≠ 0)
    (h : psaKeyAlgorithmPermits keyType (psaKeyPolicyAlgorithmIntersection keyType x y) a = true) :
    psaKeyAlgorithmPermits keyType x a = true := by
  rw [intersection_mac hsame hne] at h
  by_cases hcan : psaMacKeyCanDo x keyType = .success
  swap
  · rw [if_pos hcan] at h
    exact absurd (permits_zero_iff.mp h) hzero
  rw [if_neg (not_not.mpr hcan)] at h
  have hcany : psaMacKeyCanDo y keyType = .success := hsame.canDo_eq ▸ hcan
  have hrefl : SameMac x x := ⟨hsame.1, hsame.1, rfl⟩
  rw [permits_mac_length_iff hsame.1 hcan hspec hfits]
  split at h
  · next hboth =>
    -- two minimum lengths: the larger one, which may be the full length
    have hz := (sameMac_of_lengthBase_eq hsame.1 (lengthBase_withAtLeastLength x
      (max (psaMacLength keyType x) (psaMacLength keyType y))).symm).symm
    have hlen := psaMacLength_of_field keyType hz
      (lengthField_withAtLeastLength x _) (by
        have := psaMacLength_range keyType hrefl
        have := psaMacLength_range keyType hsame.symm
        omega)
    obtain ⟨hza, hle, _⟩ := (permits_mac_length_iff hz.1 (hz.canDo_eq.trans hcan) hspec hfits).mp h
    rw [hlen] at hle
    refine ⟨hz.symm.trans hza, by omega, fun hnot => ?_⟩
    simp [hboth.1] at hnot
  split at h
  · next hx =>
    split at h
    · obtain ⟨hya, hle, _⟩ := (permits_mac_length_iff hsame.2.1 hcany hspec hfits).mp h
      refine ⟨hsame.trans hya, by omega, fun hnot => ?_⟩
      simp [hx] at hnot
    · exact absurd (permits_zero_iff.mp h) hzero
  split at h
  · split at h
    · exact (permits_mac_length_iff hsame.1 hcan hspec hfits).mp h
    · exact absurd (permits_zero_iff.mp h) hzero
  split at h
  · -- two exact lengths that agree
    have hz := (sameMac_of_lengthBase_eq hsame.1
      (lengthBase_withLength x (psaMacLength keyType x)).symm).symm
    have hlen := psaMacLength_of_field keyType hz
      (lengthField_withLength x _) (psaMacLength_range keyType hrefl)
    obtain ⟨hza, hle, hexact⟩ := (permits_mac_length_iff hz.1
      (hz.canDo_eq.trans hcan) hspec hfits).mp h
    have heq := hexact (not_atLeastThisLength_withLength x _)
    rw [hlen] at heq
    exact ⟨hz.symm.trans hza, by omega, fun _ => heq⟩
  · exact absurd (permits_zero_iff.mp h) hzero

theorem permits_left (hzero : a ≠ 0) (hspec : psaAlgIsWildcard a = false)
    (hfits : MacLengthFits keyType a)
    (h : psaKeyAlgorithmPermits keyType (psaKeyPolicyAlgorithmIntersection keyType x y) a = true) :
    psaKeyAlgorithmPermits keyType x a = true := by
  by_cases hne : x = y
  · rwa [← hne, intersection_self] at h
  by_cases hsign : SameSign x y
  · exact permits_left_sign hsign hne hzero h
  by_cases haead : SameAead x y
  · exact permits_left_aead haead hne hspec hzero h
  by_cases hmac : SameMac x y
  · exact permits_left_mac hmac hne hspec hfits hzero h
  · rw [intersection_other hne hsign haead hmac] at h
    exact absurd (permits_zero_iff.mp h) hzero

theorem permitted_intersection_subset (keyType : PsaKeyType) (x y : PsaAlgorithm) :
    permitted keyType (psaKeyPolicyAlgorithmIntersection keyType x y)
      ⊆ permitted keyType x ∩ permitted keyType y := by
  rintro a ⟨hzero, hspec, hfits, h⟩
  refine ⟨⟨hzero, hspec, hfits, permits_left hzero hspec hfits h⟩, hzero, hspec, hfits, ?_⟩
  rw [intersection_comm] at h
  exact permits_left hzero hspec hfits h

end Sound

/-! ## Restricting a policy -/

theorem psaKeyPolicyPermits_success_iff {policy : PsaKeyPolicy}
    {keyType : PsaKeyType} {a : PsaAlgorithm} :
    psaKeyPolicyPermits policy keyType a = .success ↔ a ≠ 0 ∧
      psaAlgIsWildcard a = false ∧
      (psaKeyAlgorithmPermits keyType policy.alg a = true ∨
        psaKeyAlgorithmPermits keyType policy.alg2 a = true) := by
  unfold psaKeyPolicyPermits
  split_ifs with hzero hwild hor
  · exact iff_of_false (by simp) fun h => h.1 hzero
  · exact iff_of_false (by simp) fun h => by simp [hwild] at h
  · exact iff_of_true rfl ⟨hzero, by simpa using hwild, by simpa using hor⟩
  · exact iff_of_false (by simp) fun h => hor (by simpa using h.2.2)

/-- Copying a key never widens what it may be used for. A restriction that fails leaves the policy
unchanged. -/
theorem psaRestrictKeyPolicy_sound (keyType : PsaKeyType)
    (requested source : PsaKeyPolicy) :
    let r := psaRestrictKeyPolicy keyType requested source
    (r.1 = .success →
      r.2.usage &&& requested.usage = r.2.usage ∧
      r.2.usage &&& source.usage = r.2.usage ∧
      ∀ a : PsaAlgorithm, MacLengthFits keyType a →
        psaKeyPolicyPermits r.2 keyType a = .success →
        psaKeyPolicyPermits source keyType a = .success ∧
        psaKeyPolicyPermits requested keyType a = .success) ∧
    (r.1 ≠ .success → r.2 = requested) := by
  intro r
  subst r
  unfold psaRestrictKeyPolicy
  dsimp only
  split_ifs
  · simp
  · simp
  refine ⟨fun _ => ⟨?_, ?_, ?_⟩, fun h => absurd rfl h⟩
  · rw [BitVec.and_assoc, BitVec.and_comm source.usage, ← BitVec.and_assoc, BitVec.and_self]
  · rw [BitVec.and_assoc, BitVec.and_self]
  intro a hfits hpermits
  obtain ⟨hzero, hspec, hor⟩ := psaKeyPolicyPermits_success_iff.mp hpermits
  have hsub : ∀ x y, psaKeyAlgorithmPermits keyType
      (psaKeyPolicyAlgorithmIntersection keyType x y) a = true →
      psaKeyAlgorithmPermits keyType x a = true ∧ psaKeyAlgorithmPermits keyType y a = true := by
    intro x y h
    obtain ⟨hx, hy⟩ := permitted_intersection_subset keyType x y ⟨hzero, hspec, hfits, h⟩
    exact ⟨hx.2.2.2, hy.2.2.2⟩
  simp only [psaKeyPolicyPermits_success_iff]
  rcases hor with h | h
  · exact ⟨⟨hzero, hspec, .inl (hsub _ _ h).2⟩, hzero, hspec, .inl (hsub _ _ h).1⟩
  · exact ⟨⟨hzero, hspec, .inr (hsub _ _ h).2⟩, hzero, hspec, .inr (hsub _ _ h).1⟩

/-- HMAC-SHA-256 with at least 16 bytes, restricted by at least 20 bytes,
permits 24 bytes. -/
theorem psaRestrictKeyPolicy_sound_witness :
    let requested : PsaKeyPolicy :=
      { usage := 0x1400, alg := psaAlgAtLeastThisLengthMac 0x03800009 16, alg2 := 0 }
    let source : PsaKeyPolicy :=
      { usage := 0x0400, alg := psaAlgAtLeastThisLengthMac 0x03800009 20, alg2 := 0 }
    psaKeyPolicyPermits source psaKeyTypeHmac (psaAlgTruncatedMac 0x03800009 24)
        = .success ∧
      psaKeyPolicyPermits requested psaKeyTypeHmac (psaAlgTruncatedMac 0x03800009 24)
        = .success := by
  intro requested source
  obtain ⟨hok, _⟩ := psaRestrictKeyPolicy_sound psaKeyTypeHmac requested source
  obtain ⟨_, _, hpermits⟩ := hok (by decide)
  exact hpermits (psaAlgTruncatedMac 0x03800009 24) (fun _ => by decide) (by decide)

end TfPsaCrypto
