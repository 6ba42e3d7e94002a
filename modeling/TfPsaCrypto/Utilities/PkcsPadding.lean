import TfPsaCrypto.Utilities.Pem
import TfPsaCrypto.Utilities.ConstantTimeMasks
import TfPsaCrypto.Builtin.Cipher

/-!
# PKCS#7 padding

`mbedtls_get_pkcs_padding` of `cipher.c` as it is written, beside `pem_check_pkcs_padding` of
`pem.c`.
-/

namespace TfPsaCrypto.PkcsPadding

open Bytes Pem
open Pkcs5 (addPkcsPadding pkcsPadded length_pkcsPadded length_addPkcsPadding length_tail
  mbedtlsGetPkcsPadding_add)

/-! ## The check of the cipher layer -/

/-- The loop of `mbedtls_get_pkcs_padding` from index `i` on. -/
def getPkcsPaddingLoop (paddingLen padIdx : UInt64) : UInt64 → ByteString → UInt64 → UInt64
  | _, [], bad => bad
  | i, b :: rest, bad =>
    let inPadding := mbedtlsCtBoolNot (mbedtlsCtUintLt i padIdx)
    let different := mbedtlsCtUintNe b.toUInt64 paddingLen
    getPkcsPaddingLoop paddingLen padIdx (i + 1) rest
      (mbedtlsCtBoolOr bad (mbedtlsCtBoolAnd inPadding different))

def mbedtlsGetPkcsPadding (input : ByteString) : UInt64 × UInt64 :=
  let inputLen := UInt64.ofNat input.length
  let paddingLen := (input.getD (input.length - 1) 0).toUInt64
  let bad := mbedtlsCtUintGt paddingLen inputLen
  let bad := mbedtlsCtBoolOr bad (mbedtlsCtUintEq paddingLen 0)
  -- the number of bytes checked must be independent of the padding
  let padIdx := inputLen - paddingLen
  let bad := getPkcsPaddingLoop paddingLen padIdx 0 input bad
  (mbedtlsCtIf bad 0 (inputLen - paddingLen), bad &&& 0xFFFFFFFFFFFFFFFF)

def lastBlockPadding (input : ByteString) : Option Nat :=
  if input = [] then none
  else
    let r := mbedtlsGetPkcsPadding (input.drop (input.length - 16))
    if r.2 = 0 then some (input.length - 16 + r.1.toNat) else none

/-! ## The rule -/

def EndsIn (input : ByteString) (n : Nat) : Prop :=
  n ≤ input.length ∧ ∀ b ∈ input.drop (input.length - n), b.toNat = n

instance (input : ByteString) (n : Nat) : Decidable (EndsIn input n) :=
  @instDecidableAnd _ _ (Nat.decLe _ _) (List.decidableBAll (fun b : UInt8 => b.toNat = n) _)

def lastByte (input : ByteString) : Nat := (input.getD (input.length - 1) 0).toNat

/-- The padding is that of PKCS#7, and `n` bytes remain without it. -/
def IsPadded (input : ByteString) (n : Nat) : Prop :=
  1 ≤ lastByte input ∧ lastByte input ≤ 16 ∧ EndsIn input (lastByte input) ∧
    n = input.length - lastByte input

/-- PEM and the cipher layer accept `input` with the same length, and when the rule says so. -/
def ChecksAgree (input : ByteString) : Prop :=
  ∀ n, (pemCheckPkcsPadding input = .ok n ↔ lastBlockPadding input = some n) ∧
    (lastBlockPadding input = some n ↔ IsPadded input n)

/-! ## What each check accepts -/

variable {input : ByteString}

theorem getPkcsPaddingLoop_mask {p : UInt8} {padIdx : Nat} (hpad : padIdx < 2 ^ 64)
    (rest : ByteString) (k : Nat) (bad : Bool) (h : k + rest.length < 2 ^ 64) :
    getPkcsPaddingLoop p.toUInt64 (UInt64.ofNat padIdx) (UInt64.ofNat k) rest (ctMask bad)
      = ctMask (bad || (rest.drop (padIdx - k)).any (· ≠ p)) := by
  induction rest generalizing k bad with
  | nil => simp [getPkcsPaddingLoop]
  | cons b rest ih =>
    rw [List.length_cons] at h
    have hsize : UInt64.size = 2 ^ 64 := rfl
    have hlt : UInt64.ofNat k < UInt64.ofNat padIdx ↔ k < padIdx := by
      rw [UInt64.lt_iff_toNat_lt, UInt64.toNat_ofNat_of_lt' (by omega),
        UInt64.toNat_ofNat_of_lt' hpad]
    have hne : b.toUInt64 ≠ p.toUInt64 ↔ b ≠ p := not_congr UInt8.toUInt64_inj
    have hnext : UInt64.ofNat k + 1 = UInt64.ofNat (k + 1) := (UInt64.ofNat_add k 1).symm
    rw [getPkcsPaddingLoop]
    simp only [mbedtlsCtUintLt_eq, mbedtlsCtUintNe_eq, mbedtlsCtBoolNot_mask,
      mbedtlsCtBoolAnd_mask, mbedtlsCtBoolOr_mask, hlt, hne, hnext]
    rw [ih (k + 1) _ (by omega)]
    congr 1
    by_cases hk : k < padIdx
    · obtain ⟨d, hd⟩ : ∃ d, padIdx - k = d + 1 := ⟨padIdx - k - 1, by omega⟩
      rw [hd, List.drop_succ_cons, show padIdx - (k + 1) = d by omega]
      simp [hk]
    · rw [show padIdx - k = 0 by omega, show padIdx - (k + 1) = 0 by omega, List.drop_zero,
        List.drop_zero, List.any_cons]
      simp [hk, Bool.or_assoc]

theorem any_ne_eq {p : UInt8} (rest : ByteString)
    [Decidable (∀ b ∈ rest, b.toNat = p.toNat)] :
    rest.any (· ≠ p) = !decide (∀ b ∈ rest, b.toNat = p.toNat) := by
  rw [Bool.eq_iff_iff, List.any_eq_true, Bool.not_eq_true', decide_eq_false_iff_not]
  simp [UInt8.toNat_inj]

theorem mbedtlsGetPkcsPadding_words (h : input.length < 2 ^ 64) :
    mbedtlsGetPkcsPadding input =
      if 1 ≤ lastByte input ∧ EndsIn input (lastByte input)
      then (UInt64.ofNat (input.length - lastByte input), 0)
      else (0, ctTrue) := by
  obtain ⟨p, hp⟩ : ∃ p, p = input.getD (input.length - 1) 0 := ⟨_, rfl⟩
  have hlast : lastByte input = p.toNat := by rw [hp]; rfl
  have hgt : UInt64.ofNat input.length < p.toUInt64 ↔ input.length < p.toNat := by
    rw [UInt64.lt_iff_toNat_lt, UInt64.toNat_ofNat_of_lt' h, UInt8.toNat_toUInt64]
  have hzero : p.toUInt64 = 0 ↔ p.toNat = 0 := by
    rw [← UInt64.toNat_inj, UInt8.toNat_toUInt64]
    rfl
  -- the loop starts where the padding does, or anywhere when `bad` is set already
  obtain ⟨idx, hidx, hsub⟩ : ∃ idx < 2 ^ 64,
      UInt64.ofNat input.length - p.toUInt64 = UInt64.ofNat idx :=
    ⟨_, UInt64.toNat_lt _, (UInt64.ofNat_toNat).symm⟩
  have hloop := @getPkcsPaddingLoop_mask p idx hidx input 0
    (decide (input.length < p.toNat) || decide (p.toNat = 0)) (by omega)
  rw [any_ne_eq, show UInt64.ofNat 0 = 0 from rfl, Nat.sub_zero] at hloop
  unfold mbedtlsGetPkcsPadding mbedtlsCtUintGt
  simp only [← hp, hlast, mbedtlsCtUintLt_eq, mbedtlsCtUintEq_eq, mbedtlsCtBoolOr_mask, hgt,
    hzero, hsub, hloop, mbedtlsCtIf_mask]
  by_cases hle : p.toNat ≤ input.length
  · have hidx' : idx = input.length - p.toNat := by
      have hnat := congrArg UInt64.toNat hsub
      rw [UInt64.toNat_sub_of_le, UInt64.toNat_ofNat_of_lt' h, UInt8.toNat_toUInt64,
        UInt64.toNat_ofNat_of_lt' hidx] at hnat
      · exact hnat.symm
      · rw [UInt64.le_iff_toNat_le, UInt64.toNat_ofNat_of_lt' h, UInt8.toNat_toUInt64]
        exact hle
    subst hidx'
    by_cases hzero' : p.toNat = 0
    · simp [hzero']
      decide
    by_cases hall : ∀ b ∈ input.drop (input.length - p.toNat), b.toNat = p.toNat
    · rw [if_pos (show _ ∧ EndsIn _ _ from ⟨by omega, hle, hall⟩), decide_eq_true hall,
        decide_eq_false (by omega), decide_eq_false hzero']
      rfl
    · rw [if_neg (fun hrule : _ ∧ EndsIn _ _ => hall hrule.2.2), decide_eq_false hall]
      simp
      decide
  · rw [if_neg (fun hrule : _ ∧ EndsIn _ _ => hle hrule.2.1), decide_eq_true (by omega)]
    simp
    decide

theorem EndsIn.zero (input : ByteString) : EndsIn input 0 := by
  refine ⟨Nat.zero_le _, fun b hb => ?_⟩
  rw [Nat.sub_zero, List.drop_length] at hb
  cases hb

theorem endsIn_drop_iff {n : Nat} (h : 16 ≤ input.length) :
    EndsIn (input.drop (input.length - 16)) n ↔ n ≤ 16 ∧ EndsIn input n := by
  have hlen : (input.drop (input.length - 16)).length = 16 := by
    rw [List.length_drop]
    omega
  unfold EndsIn
  rw [hlen, List.drop_drop]
  constructor
  · rintro ⟨hle, hall⟩
    rw [show input.length - 16 + (16 - n) = input.length - n by omega] at hall
    exact ⟨hle, by omega, hall⟩
  · rintro ⟨hle, -, hall⟩
    rw [show input.length - 16 + (16 - n) = input.length - n by omega]
    exact ⟨hle, hall⟩

theorem lastByte_drop (h : 16 ≤ input.length) :
    lastByte (input.drop (input.length - 16)) = lastByte input := by
  have hlen : (input.drop (input.length - 16)).length = 16 := by
    rw [List.length_drop]
    omega
  have hindex : input.length - 16 + (16 - 1) = input.length - 1 := by omega
  unfold lastByte
  rw [hlen, List.getD_eq_getElem?_getD, List.getElem?_drop, hindex, List.getD_eq_getElem?_getD]

theorem lastBlockPadding_iff {n : Nat} (h : 16 ∣ input.length) :
    lastBlockPadding input = some n ↔ IsPadded input n := by
  by_cases hnil : input = []
  · subst hnil
    constructor
    · rintro ⟨⟩
    · rintro ⟨hpos, -⟩
      cases hpos
  have hpos := List.length_pos_iff.mpr hnil
  have hlong : 16 ≤ input.length := Nat.le_of_dvd hpos h
  have hlen : (input.drop (input.length - 16)).length = 16 := by
    rw [List.length_drop]
    omega
  unfold lastBlockPadding IsPadded
  rw [if_neg hnil]
  simp only [mbedtlsGetPkcsPadding_words (show _ < 2 ^ 64 by rw [hlen]; decide), hlen,
    lastByte_drop hlong, endsIn_drop_iff hlong]
  obtain ⟨p, hp⟩ : ∃ p, p = lastByte input := ⟨_, rfl⟩
  rw [← hp]
  by_cases hrule : 1 ≤ p ∧ p ≤ 16 ∧ EndsIn input p
  · have htotal : input.length - 16 + (UInt64.ofNat (16 - p)).toNat = input.length - p := by
      have hsize : UInt64.size = 2 ^ 64 := rfl
      rw [UInt64.toNat_ofNat_of_lt' (by omega)]
      omega
    rw [if_pos hrule]
    simp only [if_true, htotal, Option.some.injEq]
    exact ⟨fun hn => ⟨hrule.1, hrule.2.1, hrule.2.2, hn.symm⟩, fun hn => hn.2.2.2.symm⟩
  · rw [if_neg hrule]
    constructor
    · rintro ⟨⟩
    · rintro ⟨hone, hle, hends, -⟩
      exact absurd ⟨hone, hle, hends⟩ hrule

theorem pemCheckPkcsPadding_iff {n : Nat} :
    pemCheckPkcsPadding input = .ok n ↔
      input ≠ [] ∧ EndsIn input (lastByte input) ∧ n = input.length - lastByte input := by
  unfold pemCheckPkcsPadding
  by_cases hnil : input = []
  · subst hnil
    simp
  have hpos := List.length_pos_iff.mpr hnil
  rw [if_neg (by omega)]
  show (if lastByte input > input.length then _ else
    if (input.drop (input.length - lastByte input)).all fun b => b.toNat = lastByte input then
      Except.ok (input.length - lastByte input) else _) = _ ↔ _
  by_cases hle : lastByte input ≤ input.length
  · rw [if_neg (by omega)]
    by_cases hall : ∀ b ∈ input.drop (input.length - lastByte input), b.toNat = lastByte input
    · rw [if_pos (List.all_eq_true.mpr fun b hb => decide_eq_true (hall b hb)), Except.ok.injEq]
      exact ⟨fun hn => ⟨hnil, ⟨hle, hall⟩, hn.symm⟩, fun hn => hn.2.2.symm⟩
    rw [if_neg]
    · constructor
      · rintro ⟨⟩
      · rintro ⟨-, hends, -⟩
        exact absurd hends.2 hall
    · intro hbytes
      exact hall fun b hb => of_decide_eq_true (List.all_eq_true.mp hbytes b hb)
  · rw [if_pos (by omega)]
    constructor
    · rintro ⟨⟩
    · rintro ⟨-, hends, -⟩
      exact absurd hends.1 hle

theorem isPadded_pkcsPadded (data : ByteString) : IsPadded (pkcsPadded data) data.length := by
  obtain ⟨p, hp⟩ : ∃ p, p = 16 - data.length % 16 := ⟨_, rfl⟩
  have hbyte : (UInt8.ofNat p).toNat = p := by
    rw [UInt8.toNat_ofNat']
    omega
  have hpadded : pkcsPadded data = data ++ List.replicate p (UInt8.ofNat p) := by
    rw [pkcsPadded, addPkcsPadding, length_tail, ← List.append_assoc, List.take_append_drop, ← hp]
  have hlen : (pkcsPadded data).length = data.length + p := by
    rw [hpadded, List.length_append, List.length_replicate]
  have hlast : lastByte (pkcsPadded data) = p := by
    unfold lastByte
    rw [hlen, hpadded, List.getD_eq_getElem?_getD, List.getElem?_append_right (by omega),
      List.getElem?_replicate, if_pos (by omega), Option.getD_some, hbyte]
  refine ⟨by omega, by omega, ⟨by omega, ?_⟩, by omega⟩
  rw [hlast, hlen, Nat.add_sub_cancel, hpadded, List.drop_left]
  intro b hb
  rw [List.eq_of_mem_replicate hb, hbyte]

/-! ## Where the checks agree -/

def NotOnlyPem (input : ByteString) : Prop :=
  input = [] ∨ lastByte input ≠ 0 ∧ (16 < lastByte input → ¬ EndsIn input (lastByte input))

/-- Exactly then the two checks agree; on the padding that is added they always do. -/
theorem pkcs_padding_checks_agree_iff (data : ByteString) {input : ByteString}
    (hblocks : 16 ∣ input.length) :
    (ChecksAgree input ↔ NotOnlyPem input) ∧
      pemCheckPkcsPadding (pkcsPadded data) = .ok data.length ∧
        lastBlockPadding (pkcsPadded data) = some data.length := by
  constructor
  · constructor
    · intro hagree
      by_cases hnil : input = []
      · exact .inl hnil
      have hrule : EndsIn input (lastByte input) →
          1 ≤ lastByte input ∧ lastByte input ≤ 16 := by
        intro hends
        obtain ⟨hsame, hpadded⟩ := hagree (input.length - lastByte input)
        obtain ⟨hone, hle, -⟩ :=
          hpadded.mp (hsame.mp (pemCheckPkcsPadding_iff.mpr ⟨hnil, hends, rfl⟩))
        exact ⟨hone, hle⟩
      refine .inr ⟨?_, ?_⟩
      · intro hzero
        rw [hzero] at hrule
        exact absurd (hrule (EndsIn.zero input)).1 (by decide)
      · intro hlong hends
        have hle := (hrule hends).2
        omega
    · intro hcond n
      have hcipher := @lastBlockPadding_iff input n hblocks
      refine ⟨?_, hcipher⟩
      rw [hcipher, pemCheckPkcsPadding_iff]
      constructor
      · rintro ⟨hnil, hends, hn⟩
        rcases hcond with hempty | ⟨hzero, hlong⟩
        · exact absurd hempty hnil
        · have hle : lastByte input ≤ 16 := by
            by_contra hgt
            exact hlong (by omega) hends
          exact ⟨by omega, hle, hends, hn⟩
      · rintro ⟨hone, -, hends, hn⟩
        refine ⟨?_, hends, hn⟩
        rintro rfl
        exact absurd hone (by decide)
  · have hpadded := isPadded_pkcsPadded data
    have hlen := length_pkcsPadded data
    have hdvd : 16 ∣ (pkcsPadded data).length := ⟨data.length / 16 + 1, by omega⟩
    refine ⟨pemCheckPkcsPadding_iff.mpr ⟨?_, hpadded.2.2.1, hpadded.2.2.2⟩,
      (lastBlockPadding_iff hdvd).mpr hpadded⟩
    intro hnil
    rw [hnil, List.length_nil] at hlen
    omega

/-- At a block of fifteen bytes and one byte of padding. -/
theorem pkcs_padding_checks_agree_iff_block :
    ChecksAgree (List.replicate 15 7 ++ [1]) ↔ NotOnlyPem (List.replicate 15 7 ++ [1]) :=
  (@pkcs_padding_checks_agree_iff [] (List.replicate 15 7 ++ [1]) (by decide)).1

/-- A last byte of zero is no padding to the cipher layer, and PEM then returns the whole block. -/
theorem pkcs_padding_checks_differ :
    ¬ ∀ input : ByteString, 16 ∣ input.length → ChecksAgree input := by
  intro hall
  have hpem : pemCheckPkcsPadding (List.replicate 16 0) = .ok 16 := by decide
  have hcipher := ((hall (List.replicate 16 0) (by decide)) 16).1.mp hpem
  have hnone : lastBlockPadding (List.replicate 16 0) = none := by decide
  rw [hnone] at hcipher
  cases hcipher

end TfPsaCrypto.PkcsPadding
