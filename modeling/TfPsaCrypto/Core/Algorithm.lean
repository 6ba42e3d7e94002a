import Mathlib.Tactic.IntervalCases
import TfPsaCrypto.Core.Types
import TfPsaCrypto.Library.Masks

/-!
# The encoding of algorithms

The `PSA_ALG_*` macros that the core reads, on 32-bit identifiers. The length field and wildcard
flag of MAC and AEAD algorithms are `lengthField`, `lengthBase` and `withLength`.
-/

namespace TfPsaCrypto

/-! ## Categories -/

def psaAlgCategoryMask : PsaAlgorithm := 0x7f000000
def psaAlgCategoryHash : PsaAlgorithm := 0x02000000
def psaAlgCategoryMac : PsaAlgorithm := 0x03000000
def psaAlgCategoryAead : PsaAlgorithm := 0x05000000
def psaAlgCategoryKeyDerivation : PsaAlgorithm := 0x08000000
def psaAlgCategoryKeyAgreement : PsaAlgorithm := 0x09000000

def psaAlgHashMask : PsaAlgorithm := 0x000000ff
def psaAlgAnyHash : PsaAlgorithm := 0x020000ff

def psaAlgIsMac (alg : PsaAlgorithm) : Bool := alg &&& psaAlgCategoryMask = psaAlgCategoryMac

def psaAlgIsAead (alg : PsaAlgorithm) : Bool := alg &&& psaAlgCategoryMask = psaAlgCategoryAead

def psaAlgIsKeyAgreement (alg : PsaAlgorithm) : Bool :=
  alg &&& psaAlgCategoryMask = psaAlgCategoryKeyAgreement

def psaAlgIsKeyDerivation (alg : PsaAlgorithm) : Bool :=
  alg &&& psaAlgCategoryMask = psaAlgCategoryKeyDerivation

/-! ## The length field of MAC and AEAD algorithms -/

/-- `PSA_ALG_MAC_TRUNCATION_MASK` and `PSA_ALG_AEAD_TAG_LENGTH_MASK`. -/
def lengthMask : PsaAlgorithm := 0x003f0000

/-- `PSA_MAC_TRUNCATION_OFFSET` and `PSA_AEAD_TAG_LENGTH_OFFSET`. -/
def lengthOffset : Nat := 16

/-- `PSA_ALG_MAC_AT_LEAST_THIS_LENGTH_FLAG` and
`PSA_ALG_AEAD_AT_LEAST_THIS_LENGTH_FLAG`. -/
def atLeastThisLengthFlag : PsaAlgorithm := 0x00008000

def lengthField (alg : PsaAlgorithm) : Nat := ((alg &&& lengthMask) >>> lengthOffset).toNat

def lengthBase (alg : PsaAlgorithm) : PsaAlgorithm :=
  alg &&& ~~~(lengthMask ||| atLeastThisLengthFlag)

def withLength (alg : PsaAlgorithm) (length : Nat) : PsaAlgorithm :=
  (alg &&& ~~~(lengthMask ||| atLeastThisLengthFlag))
    ||| (BitVec.ofNat 32 length <<< lengthOffset &&& lengthMask)

def withAtLeastLength (alg : PsaAlgorithm) (length : Nat) : PsaAlgorithm :=
  withLength alg length ||| atLeastThisLengthFlag

def atLeastThisLength (alg : PsaAlgorithm) : Bool := alg &&& atLeastThisLengthFlag ≠ 0

def psaAlgTruncatedMac (macAlg : PsaAlgorithm) (macLength : Nat) : PsaAlgorithm :=
  withLength macAlg macLength

def psaAlgFullLengthMac (macAlg : PsaAlgorithm) : PsaAlgorithm := lengthBase macAlg

def psaMacTruncatedLength (macAlg : PsaAlgorithm) : Nat := lengthField macAlg

def psaAlgAtLeastThisLengthMac (macAlg : PsaAlgorithm) (minMacLength : Nat) :
    PsaAlgorithm :=
  withAtLeastLength macAlg minMacLength

def psaAlgAeadWithShortenedTag (aeadAlg : PsaAlgorithm) (tagLength : Nat) :
    PsaAlgorithm :=
  withLength aeadAlg tagLength

def psaAlgAeadGetTagLength (aeadAlg : PsaAlgorithm) : Nat := lengthField aeadAlg

def psaAlgAeadWithAtLeastThisLengthTag (aeadAlg : PsaAlgorithm)
    (minTagLength : Nat) : PsaAlgorithm :=
  withAtLeastLength aeadAlg minTagLength

def psaAlgCcm : PsaAlgorithm := 0x05500100
def psaAlgGcm : PsaAlgorithm := 0x05500200
def psaAlgChacha20Poly1305 : PsaAlgorithm := 0x05100500

/-- 0 for an unknown algorithm. -/
def psaAlgAeadWithDefaultLengthTag (aeadAlg : PsaAlgorithm) : PsaAlgorithm :=
  if psaAlgAeadWithShortenedTag aeadAlg 0 = psaAlgAeadWithShortenedTag psaAlgCcm 0 then psaAlgCcm
  else if psaAlgAeadWithShortenedTag aeadAlg 0
      = psaAlgAeadWithShortenedTag psaAlgGcm 0 then psaAlgGcm
  else if psaAlgAeadWithShortenedTag aeadAlg 0
      = psaAlgAeadWithShortenedTag psaAlgChacha20Poly1305 0 then
    psaAlgChacha20Poly1305
  else 0

def psaAlgAeadEqual (aeadAlg1 aeadAlg2 : PsaAlgorithm) : Bool :=
  (aeadAlg1 ^^^ aeadAlg2) &&& ~~~(lengthMask ||| atLeastThisLengthFlag) = 0

/-! ## MAC lengths -/

def psaAlgMacSubcategoryMask : PsaAlgorithm := 0x00c00000
def psaAlgHmacBase : PsaAlgorithm := 0x03800000
def psaAlgCipherMacBase : PsaAlgorithm := 0x03c00000

def psaAlgIsHmac (alg : PsaAlgorithm) : Bool :=
  alg &&& (psaAlgCategoryMask ||| psaAlgMacSubcategoryMask) = psaAlgHmacBase

def psaAlgIsBlockCipherMac (alg : PsaAlgorithm) : Bool :=
  alg &&& (psaAlgCategoryMask ||| psaAlgMacSubcategoryMask) = psaAlgCipherMacBase

def psaAlgHmac (hashAlg : PsaAlgorithm) : PsaAlgorithm :=
  psaAlgHmacBase ||| (hashAlg &&& psaAlgHashMask)

def psaAlgHmacGetHash (hmacAlg : PsaAlgorithm) : PsaAlgorithm :=
  psaAlgCategoryHash ||| (hmacAlg &&& psaAlgHashMask)

def psaAlgMd5 : PsaAlgorithm := 0x02000003
def psaAlgRipemd160 : PsaAlgorithm := 0x02000004
def psaAlgSha1 : PsaAlgorithm := 0x02000005
def psaAlgSha224 : PsaAlgorithm := 0x02000008
def psaAlgSha256 : PsaAlgorithm := 0x02000009
def psaAlgSha384 : PsaAlgorithm := 0x0200000a
def psaAlgSha512 : PsaAlgorithm := 0x0200000b
def psaAlgSha512_224 : PsaAlgorithm := 0x0200000c
def psaAlgSha512_256 : PsaAlgorithm := 0x0200000d
def psaAlgSha3_224 : PsaAlgorithm := 0x02000010
def psaAlgSha3_256 : PsaAlgorithm := 0x02000011
def psaAlgSha3_384 : PsaAlgorithm := 0x02000012
def psaAlgSha3_512 : PsaAlgorithm := 0x02000013

def psaHashLength (alg : PsaAlgorithm) : Nat :=
  if psaAlgHmacGetHash alg = psaAlgMd5 then 16
  else if psaAlgHmacGetHash alg = psaAlgRipemd160 then 20
  else if psaAlgHmacGetHash alg = psaAlgSha1 then 20
  else if psaAlgHmacGetHash alg = psaAlgSha224 then 28
  else if psaAlgHmacGetHash alg = psaAlgSha256 then 32
  else if psaAlgHmacGetHash alg = psaAlgSha384 then 48
  else if psaAlgHmacGetHash alg = psaAlgSha512 then 64
  else if psaAlgHmacGetHash alg = psaAlgSha512_224 then 28
  else if psaAlgHmacGetHash alg = psaAlgSha512_256 then 32
  else if psaAlgHmacGetHash alg = psaAlgSha3_224 then 28
  else if psaAlgHmacGetHash alg = psaAlgSha3_256 then 32
  else if psaAlgHmacGetHash alg = psaAlgSha3_384 then 48
  else if psaAlgHmacGetHash alg = psaAlgSha3_512 then 64
  else 0

def psaHashBlockLength (alg : PsaAlgorithm) : Nat :=
  if psaAlgHmacGetHash alg = psaAlgMd5 then 64
  else if psaAlgHmacGetHash alg = psaAlgRipemd160 then 64
  else if psaAlgHmacGetHash alg = psaAlgSha1 then 64
  else if psaAlgHmacGetHash alg = psaAlgSha224 then 64
  else if psaAlgHmacGetHash alg = psaAlgSha256 then 64
  else if psaAlgHmacGetHash alg = psaAlgSha384 then 128
  else if psaAlgHmacGetHash alg = psaAlgSha512 then 128
  else if psaAlgHmacGetHash alg = psaAlgSha512_224 then 128
  else if psaAlgHmacGetHash alg = psaAlgSha512_256 then 128
  else if psaAlgHmacGetHash alg = psaAlgSha3_224 then 144
  else if psaAlgHmacGetHash alg = psaAlgSha3_256 then 136
  else if psaAlgHmacGetHash alg = psaAlgSha3_384 then 104
  else if psaAlgHmacGetHash alg = psaAlgSha3_512 then 72
  else 0

def psaKeyTypeCategoryMask : PsaKeyType := 0x7000
def psaKeyTypeCategorySymmetric : PsaKeyType := 0x2000
def psaKeyTypeHmac : PsaKeyType := 0x1100

/-- A power of two from 1 to 128, and 0 for a key that is not symmetric. -/
def psaBlockCipherBlockLength (type : PsaKeyType) : Nat :=
  if type &&& psaKeyTypeCategoryMask = psaKeyTypeCategorySymmetric then
    2 ^ ((type >>> 8) &&& 7).toNat
  else 0

def psaKeyTypeChacha20 : PsaKeyType := 0x2004

def psaAeadNonceLength (keyType : PsaKeyType) (alg : PsaAlgorithm) : Nat :=
  if psaBlockCipherBlockLength keyType = 16 then
    if psaAlgAeadEqual alg psaAlgCcm then 13
    else if psaAlgAeadEqual alg psaAlgGcm then 12
    else 0
  else if keyType = psaKeyTypeChacha20 ∧ psaAlgAeadEqual alg psaAlgChacha20Poly1305 then 12
  else 0

/-- Its key size argument is not used. -/
def psaMacLength (keyType : PsaKeyType) (alg : PsaAlgorithm) : Nat :=
  if alg &&& lengthMask ≠ 0 then psaMacTruncatedLength alg
  else if psaAlgIsHmac alg then psaHashLength (psaAlgHmacGetHash alg)
  else if psaAlgIsBlockCipherMac alg then psaBlockCipherBlockLength keyType
  else 0

/-! ## Signatures, key agreement and PAKE -/

def psaAlgRsaPkcs1v15SignBase : PsaAlgorithm := 0x06000200
def psaAlgRsaPssBase : PsaAlgorithm := 0x06000300
def psaAlgRsaPssAnySaltBase : PsaAlgorithm := 0x06001300
def psaAlgEcdsaBase : PsaAlgorithm := 0x06000600
def psaAlgEcdsaDeterministicFlag : PsaAlgorithm := 0x00000100
def psaAlgHashEddsaBase : PsaAlgorithm := 0x06000900

def psaAlgIsRsaPkcs1v15Sign (alg : PsaAlgorithm) : Bool :=
  alg &&& ~~~psaAlgHashMask = psaAlgRsaPkcs1v15SignBase

def psaAlgIsRsaPss (alg : PsaAlgorithm) : Bool :=
  alg &&& ~~~psaAlgHashMask = psaAlgRsaPssBase ||
    alg &&& ~~~psaAlgHashMask = psaAlgRsaPssAnySaltBase

def psaAlgIsEcdsa (alg : PsaAlgorithm) : Bool :=
  (alg &&& ~~~psaAlgHashMask) &&& ~~~psaAlgEcdsaDeterministicFlag = psaAlgEcdsaBase

def psaAlgIsHashEddsa (alg : PsaAlgorithm) : Bool := alg &&& ~~~psaAlgHashMask = psaAlgHashEddsaBase

def psaAlgIsSignHash (alg : PsaAlgorithm) : Bool :=
  psaAlgIsRsaPss alg || psaAlgIsRsaPkcs1v15Sign alg || psaAlgIsEcdsa alg || psaAlgIsHashEddsa alg

def psaAlgIsHashAndSign (alg : PsaAlgorithm) : Bool :=
  psaAlgIsSignHash alg && decide (alg &&& psaAlgHashMask ≠ 0)

def psaAlgSignGetHash (alg : PsaAlgorithm) : PsaAlgorithm :=
  if psaAlgIsHashAndSign alg then (alg &&& psaAlgHashMask) ||| psaAlgCategoryHash
  else 0

def psaAlgKeyDerivationMask : PsaAlgorithm := 0xfe00ffff
def psaAlgKeyAgreementMask : PsaAlgorithm := 0xffff0000

def psaAlgKeyAgreementGetKdf (alg : PsaAlgorithm) : PsaAlgorithm :=
  (alg &&& psaAlgKeyDerivationMask) ||| psaAlgCategoryKeyDerivation

def psaAlgKeyAgreementGetBase (alg : PsaAlgorithm) : PsaAlgorithm :=
  (alg &&& psaAlgKeyAgreementMask) ||| psaAlgCategoryKeyAgreement

def psaAlgIsRawKeyAgreement (alg : PsaAlgorithm) : Bool :=
  psaAlgIsKeyAgreement alg && decide (psaAlgKeyAgreementGetKdf alg = psaAlgCategoryKeyDerivation)

def psaAlgJpakeBase : PsaAlgorithm := 0x0a000100

/-- The encoding of J-PAKE without a hash. -/
def psaAlgJpakeBeta : PsaAlgorithm := psaAlgJpakeBase

def psaAlgIsJpake (alg : PsaAlgorithm) : Bool := alg &&& ~~~psaAlgHashMask = psaAlgJpakeBase

def psaAlgIsWildcard (alg : PsaAlgorithm) : Bool :=
  if psaAlgIsHashAndSign alg then psaAlgSignGetHash alg = psaAlgAnyHash
  else if psaAlgIsMac alg then atLeastThisLength alg
  else if psaAlgIsAead alg then atLeastThisLength alg
  else alg = psaAlgAnyHash

/-! ## The length field, field by field -/

section Length

variable {x y : PsaAlgorithm}

theorem withLength_zero (x : PsaAlgorithm) : withLength x 0 = lengthBase x := by
  simp [withLength, lengthBase]

theorem withLength_congr (h : lengthBase x = lengthBase y) (v : Nat) :
    withLength x v = withLength y v := by
  have hmask : x &&& ~~~(lengthMask ||| atLeastThisLengthFlag)
      = y &&& ~~~(lengthMask ||| atLeastThisLengthFlag) := h
  rw [withLength, withLength, hmask]

theorem withAtLeastLength_congr (h : lengthBase x = lengthBase y) (v : Nat) :
    withAtLeastLength x v = withAtLeastLength y v := by
  rw [withAtLeastLength, withAtLeastLength, withLength_congr h]

theorem lengthField_withLength (x : PsaAlgorithm) (v : Nat) :
    lengthField (withLength x v) = v % 64 := by
  have hmask : (~~~(lengthMask ||| atLeastThisLengthFlag)) &&& lengthMask = 0 := by
    decide
  rw [lengthField, withLength, BitVec.and_or_distrib_right,
    Masks.and_and_of_disjoint hmask, Masks.and_and_of_subset (by decide)]
  simpa [lengthMask, lengthOffset] using
    Masks.toNat_shift_insert (w := 32) (o := 16) (b := 6) (v := v) (by omega)

theorem lengthBase_withLength (x : PsaAlgorithm) (v : Nat) :
    lengthBase (withLength x v) = lengthBase x := by
  rw [lengthBase, withLength, BitVec.and_or_distrib_right,
    Masks.and_and_of_subset (by decide), Masks.and_and_of_disjoint (by decide)]
  simp [lengthBase]

theorem not_atLeastThisLength_withLength (x : PsaAlgorithm) (v : Nat) :
    atLeastThisLength (withLength x v) = false := by
  have hmask : (~~~(lengthMask ||| atLeastThisLengthFlag)) &&& atLeastThisLengthFlag
      = 0 := by decide
  rw [atLeastThisLength, withLength, BitVec.and_or_distrib_right,
    Masks.and_and_of_disjoint hmask, Masks.and_and_of_disjoint (by decide)]
  simp

theorem lengthField_withAtLeastLength (x : PsaAlgorithm) (v : Nat) :
    lengthField (withAtLeastLength x v) = v % 64 := by
  rw [← lengthField_withLength x v, withAtLeastLength, lengthField, lengthField,
    BitVec.and_or_distrib_right,
    show atLeastThisLengthFlag &&& lengthMask = 0 by decide]
  simp

theorem lengthBase_withAtLeastLength (x : PsaAlgorithm) (v : Nat) :
    lengthBase (withAtLeastLength x v) = lengthBase x := by
  rw [← lengthBase_withLength x v, withAtLeastLength, lengthBase, lengthBase,
    BitVec.and_or_distrib_right,
    show atLeastThisLengthFlag &&& ~~~(lengthMask ||| atLeastThisLengthFlag) = 0 by
      decide]
  simp

theorem lengthField_lt (x : PsaAlgorithm) : lengthField x < 64 := by
  have hle : (x &&& lengthMask).toNat ≤ lengthMask.toNat := by
    rw [BitVec.toNat_and]
    exact Nat.and_le_right
  have hval : lengthMask.toNat = 0x3f0000 := rfl
  rw [lengthField, BitVec.toNat_ushiftRight, Nat.shiftRight_eq_div_pow, lengthOffset]
  omega

theorem lengthField_eq_zero_iff (x : PsaAlgorithm) :
    lengthField x = 0 ↔ x &&& lengthMask = 0 := by
  constructor
  · intro h
    have hshift : (x &&& lengthMask) >>> lengthOffset
        = (0 &&& lengthMask) >>> lengthOffset :=
      BitVec.eq_of_toNat_eq (by simpa [lengthField] using h)
    simpa using Masks.and_eq_of_shift_eq (by decide) hshift
  · intro h
    simp [lengthField, h]

theorem eq_of_length_fields (hbase : lengthBase x = lengthBase y)
    (hlen : lengthField x = lengthField y)
    (hflag : atLeastThisLength x = atLeastThisLength y) : x = y := by
  have hfield : x &&& lengthMask = y &&& lengthMask :=
    Masks.and_eq_of_shift_eq (by decide) (BitVec.eq_of_toNat_eq hlen)
  have hbit : x &&& atLeastThisLengthFlag = y &&& atLeastThisLengthFlag := by
    have hcases : ∀ z : PsaAlgorithm, z &&& atLeastThisLengthFlag = 0 ∨
        z &&& atLeastThisLengthFlag = atLeastThisLengthFlag := by
      intro z
      have hbits := BitVec.and_twoPow z 15
      rw [show BitVec.twoPow 32 15 = atLeastThisLengthFlag by decide] at hbits
      rw [hbits]
      split <;> simp
    rcases hcases x with hx | hx <;> rcases hcases y with hy | hy <;> simp_all [atLeastThisLength]
  exact Masks.eq_of_and_eq₃ hbase hfield hbit (by decide)

theorem and_eq_of_lengthBase_eq {k : PsaAlgorithm}
    (hk : (~~~(lengthMask ||| atLeastThisLengthFlag)) &&& k = k)
    (h : lengthBase x = lengthBase y) : x &&& k = y &&& k :=
  Masks.and_eq_of_subset hk h

theorem psaAlgIsMac_congr (h : lengthBase x = lengthBase y) :
    psaAlgIsMac x = psaAlgIsMac y := by
  rw [psaAlgIsMac, psaAlgIsMac, and_eq_of_lengthBase_eq (by decide) h]

theorem psaAlgIsAead_congr (h : lengthBase x = lengthBase y) :
    psaAlgIsAead x = psaAlgIsAead y := by
  rw [psaAlgIsAead, psaAlgIsAead, and_eq_of_lengthBase_eq (by decide) h]

theorem psaAlgIsHmac_congr (h : lengthBase x = lengthBase y) :
    psaAlgIsHmac x = psaAlgIsHmac y := by
  rw [psaAlgIsHmac, psaAlgIsHmac, and_eq_of_lengthBase_eq (by decide) h]

theorem psaAlgIsBlockCipherMac_congr (h : lengthBase x = lengthBase y) :
    psaAlgIsBlockCipherMac x = psaAlgIsBlockCipherMac y := by
  rw [psaAlgIsBlockCipherMac, psaAlgIsBlockCipherMac, and_eq_of_lengthBase_eq (by decide) h]

theorem psaAlgHmacGetHash_congr (h : lengthBase x = lengthBase y) :
    psaAlgHmacGetHash x = psaAlgHmacGetHash y := by
  rw [psaAlgHmacGetHash, psaAlgHmacGetHash, and_eq_of_lengthBase_eq (by decide) h]

theorem lengthBase_lengthBase (x : PsaAlgorithm) :
    lengthBase (lengthBase x) = lengthBase x :=
  Masks.and_and_of_subset (by decide)

theorem lengthField_lengthBase (x : PsaAlgorithm) : lengthField (lengthBase x) = 0 := by
  rw [lengthField_eq_zero_iff]
  exact Masks.and_and_of_disjoint (by decide)

theorem psaMacLength_eq (keyType : PsaKeyType) (x : PsaAlgorithm) :
    psaMacLength keyType x =
      if psaMacTruncatedLength x = 0 then psaMacLength keyType (psaAlgFullLengthMac x)
      else psaMacTruncatedLength x := by
  have hbase := lengthBase_lengthBase x
  unfold psaMacLength
  simp only [psaAlgFullLengthMac, ne_eq, ← lengthField_eq_zero_iff,
    lengthField_lengthBase, psaAlgIsHmac_congr hbase,
    psaAlgIsBlockCipherMac_congr hbase, psaAlgHmacGetHash_congr hbase,
    psaMacTruncatedLength, not_true_eq_false, if_false]
  by_cases h : lengthField x = 0 <;> simp [h]

theorem psaHashLength_le (alg : PsaAlgorithm) : psaHashLength alg ≤ 64 := by
  have hite : ∀ (c : Prop) [Decidable c] {a b : Nat}, a ≤ 64 → b ≤ 64 →
      (if c then a else b) ≤ 64 := by
    intro c _ a b ha hb
    split
    · exact ha
    · exact hb
  repeat refine hite _ (by decide) ?_
  exact Nat.zero_le _

theorem psaHashLength_le_blockLength (alg : PsaAlgorithm) :
    psaHashLength alg ≤ psaHashBlockLength alg := by
  have hite : ∀ (c : Prop) [Decidable c] {a a' b b' : Nat}, a ≤ a' → b ≤ b' →
      (if c then a else b) ≤ (if c then a' else b') := by
    intro c _ a a' b b' ha hb
    split
    · exact ha
    · exact hb
  repeat refine hite _ (by decide) ?_
  exact Nat.le_refl _

theorem psaMacLength_full_mod (keyType : PsaKeyType) (x : PsaAlgorithm) :
    psaMacLength keyType (psaAlgFullLengthMac x) < 64 ∨
      psaMacLength keyType (psaAlgFullLengthMac x) % 64 = 0 := by
  have hblock : psaBlockCipherBlockLength keyType < 64 ∨
      psaBlockCipherBlockLength keyType % 64 = 0 := by
    unfold psaBlockCipherBlockLength
    have hle : ((keyType >>> 8) &&& 7).toNat ≤ 7 := by
      rw [BitVec.toNat_and]
      exact Nat.and_le_right
    split_ifs
    · interval_cases ((keyType >>> 8) &&& 7).toNat <;> decide
    · decide
  have hzero : psaAlgFullLengthMac x &&& lengthMask = 0 :=
    (lengthField_eq_zero_iff _).mp (lengthField_lengthBase x)
  unfold psaMacLength
  rw [if_neg (by simp [hzero])]
  split_ifs
  · have := psaHashLength_le (psaAlgHmacGetHash (psaAlgFullLengthMac x))
    omega
  · exact hblock
  · exact .inl (by decide)

end Length

end TfPsaCrypto
