import TfPsaCrypto.Builtin.BignumBytes

/-!
# Bignum core: which numbers fit

The little-endian import and export of `bignum_core.c`, and exactly when an import or an export
succeeds, for both byte orders.
-/

namespace TfPsaCrypto

open Bytes Limbs

variable {w : Nat}

/-! ## Little-endian -/

/-- One iteration of the loop of `mbedtls_mpi_core_read_le`. -/
def coreReadLeStep (input : ByteString) (X : List (BitVec w)) (i : Nat) : List (BitVec w) :=
  X.set (i / ciL w)
    (X.getD (i / ciL w) 0 ||| (BitVec.ofNat w (input.getD i 0).toNat <<< (i % ciL w * 8)))

def mbedtlsMpiCoreReadLe (limbs : Nat) (input : ByteString) : Except MpiError (List (BitVec w)) :=
  if limbs < charsToLimbs w input.length then .error .bufferTooSmall
  else .ok ((List.range input.length).foldl (coreReadLeStep input) (List.replicate limbs 0))

def mbedtlsMpiCoreWriteLe (A : List (BitVec w)) (outputLength : Nat) :
    Except MpiError ByteString :=
  let storedBytes := A.length * ciL w
  if storedBytes < outputLength then
    .ok ((List.range storedBytes).map (getByte A) ++ List.replicate (outputLength - storedBytes) 0)
  else if (List.range storedBytes).any fun i => decide (outputLength ≤ i) && getByte A i != 0 then
    .error .bufferTooSmall
  else
    .ok ((List.range outputLength).map (getByte A))

/-! ## Import -/

section Bytes

variable (hw : 0 < ciL w) (hbits : w = 8 * ciL w)

include hw

theorem charsToLimbs_le_iff {limbs n : Nat} : charsToLimbs w n ≤ limbs ↔ n ≤ limbs * ciL w := by
  have hdiv := Nat.div_add_mod' n (ciL w)
  have hmod := Nat.mod_lt n hw
  unfold charsToLimbs
  constructor
  · intro hle
    have hmul := Nat.mul_le_mul_right (ciL w) hle
    rw [Nat.add_mul] at hmul
    split at hmul <;> omega
  · intro hle
    rcases Nat.eq_zero_or_pos (n % ciL w) with hzero | hpos
    · rw [if_neg (not_not.mpr hzero), Nat.add_zero]
      apply Nat.le_of_mul_le_mul_right _ hw
      omega
    · rw [if_pos (Nat.ne_of_gt hpos), Nat.succ_le_iff]
      apply Nat.lt_of_mul_lt_mul_right (a := ciL w)
      omega

include hbits

theorem or_byte {x : BitVec w} {k : Nat} (hk : k < ciL w) (hx : x.toNat < 256 ^ k) (b : UInt8) :
    (x ||| (BitVec.ofNat w b.toNat <<< (k * 8))).toNat = x.toNat + 256 ^ k * b.toNat := by
  have hb := UInt8.toNat_lt b
  have hpow : 2 ^ (k * 8) = 256 ^ k := by
    rw [Nat.mul_comm, Nat.pow_mul]
  have htop : 256 ^ k * b.toNat < 2 ^ w := by
    calc 256 ^ k * b.toNat < 256 ^ k * 256 :=
          Nat.mul_lt_mul_of_pos_left hb (Nat.pos_of_ne_zero (by simp))
      _ = 256 ^ (k + 1) := (Nat.pow_succ ..).symm
      _ ≤ 256 ^ ciL w := Nat.pow_le_pow_right (by decide) hk
      _ = 2 ^ w := (two_pow_limb hbits).symm
  have hbyte : b.toNat < 2 ^ w := by
    calc b.toNat < 2 ^ 8 := hb
      _ ≤ 2 ^ w := Nat.pow_le_pow_right (by decide) (by omega)
  rw [BitVec.toNat_or, BitVec.toNat_shiftLeft, BitVec.toNat_ofNat, Nat.mod_eq_of_lt hbyte,
    Nat.shiftLeft_eq, hpow, Nat.mul_comm b.toNat, Nat.mod_eq_of_lt htop, Nat.or_comm]
  rw [← hpow] at hx ⊢
  rw [← Nat.two_pow_add_eq_or_of_lt hx, Nat.add_comm]

theorem coreReadLeStep_value (input : ByteString) {X : List (BitVec w)} {i : Nat}
    (hi : i < X.length * ciL w) (hX : value X < 256 ^ i) :
    (coreReadLeStep input X i).length = X.length ∧
      value (coreReadLeStep input X i) = value X + 256 ^ i * (input.getD i 0).toNat := by
  have hindex : i / ciL w < X.length := (Nat.div_lt_iff_lt_mul hw).mpr hi
  have hpow : 2 ^ (w * (i / ciL w)) * 256 ^ (i % ciL w) = 256 ^ i := by
    have hdiv := Nat.div_add_mod i (ciL w)
    rw [Nat.pow_mul, two_pow_limb hbits, ← Nat.pow_mul, ← Nat.pow_add, hdiv]
  have hlimb : (X.getD (i / ciL w) 0#w).toNat < 256 ^ (i % ciL w) := by
    rw [getD_toNat]
    apply Nat.lt_of_le_of_lt (Nat.mod_le _ _)
    rwa [Nat.div_lt_iff_lt_mul (Nat.two_pow_pos _), Nat.mul_comm, hpow]
  have hset := value_set hindex
    (X.getD (i / ciL w) 0 ||| (BitVec.ofNat w (input.getD i 0).toNat <<< (i % ciL w * 8)))
  have hor := or_byte hw hbits (Nat.mod_lt i hw) hlimb (input.getD i 0)
  refine ⟨List.length_set, ?_⟩
  unfold coreReadLeStep
  simp only [BitVec.ofNat_eq_ofNat] at hset hor ⊢
  rw [hor, Nat.mul_add, ← Nat.mul_assoc, hpow] at hset
  omega

theorem coreReadLe_loop {input : ByteString} {limbs n : Nat} (hn : n ≤ input.length)
    (hroom : input.length ≤ limbs * ciL w) :
    ((List.range n).foldl (coreReadLeStep input)
        (List.replicate limbs (0 : BitVec w))).length = limbs ∧
      value ((List.range n).foldl (coreReadLeStep input) (List.replicate limbs (0 : BitVec w))) =
        ofLE (input.take n) := by
  induction n with
  | zero => exact ⟨List.length_replicate, value_replicate_zero limbs⟩
  | succ n ih =>
    obtain ⟨hlen, hvalue⟩ := ih (by omega)
    have hlt := ofLE_lt (input.take n)
    rw [List.length_take, Nat.min_eq_left (by omega)] at hlt
    have hindex : n < ((List.range n).foldl (coreReadLeStep input)
        (List.replicate limbs (0 : BitVec w))).length * ciL w := by
      rw [hlen]
      omega
    have hstep := coreReadLeStep_value hw hbits input hindex (by rwa [hvalue])
    rw [List.range_succ, List.foldl_append, List.foldl_cons, List.foldl_nil, hstep.1, hstep.2,
      hlen, hvalue, List.take_add_one, List.getElem?_eq_getElem (by omega), Option.toList_some,
      ofLE_append, List.length_take, Nat.min_eq_left (by omega), List.getD_eq_getElem?_getD,
      List.getElem?_eq_getElem (by omega)]
    exact ⟨rfl, by simp [ofLE]⟩

theorem mbedtlsMpiCoreReadLe_eq (limbs : Nat) (input : ByteString) :
    (mbedtlsMpiCoreReadLe limbs input : Except MpiError (List (BitVec w))) =
      if input.length ≤ limbs * ciL w then .ok (ofNat w limbs (ofLE input))
      else .error .bufferTooSmall := by
  unfold mbedtlsMpiCoreReadLe
  by_cases hroom : input.length ≤ limbs * ciL w
  · obtain ⟨hlen, hvalue⟩ := coreReadLe_loop hw hbits (Nat.le_refl _) hroom
    rw [List.take_length] at hvalue
    rw [if_neg (Nat.not_lt.mpr ((charsToLimbs_le_iff hw).mpr hroom)), if_pos hroom, ← hvalue]
    generalize (List.range input.length).foldl (coreReadLeStep input)
      (List.replicate limbs (0 : BitVec w)) = X at hlen
    rw [← hlen, ofNat_value]
  · have hshort := fun h => hroom ((charsToLimbs_le_iff hw).mp h)
    rw [if_pos (Nat.not_le.mp hshort), if_neg hroom]

theorem mbedtlsMpiCoreReadBe_eq (isBigEndian : Bool) (limbs : Nat) (input : ByteString) :
    (mbedtlsMpiCoreReadBe isBigEndian limbs input : Except MpiError (List (BitVec w))) =
      if input.length ≤ limbs * ciL w then .ok (ofNat w limbs (ofBE input))
      else .error .bufferTooSmall := by
  by_cases hroom : input.length ≤ limbs * ciL w
  · obtain ⟨X, hread, hlen, hvalue⟩ :=
      mbedtlsMpiCoreReadBe_of_le hw hbits isBigEndian ((charsToLimbs_le_iff hw).mpr hroom)
    rw [hread, if_pos hroom, ← hvalue, ← hlen, ofNat_value]
  · have hshort := fun h => hroom ((charsToLimbs_le_iff hw).mp h)
    unfold mbedtlsMpiCoreReadBe
    rw [if_pos (Nat.not_le.mp hshort), if_neg hroom]

/-! ## Export -/

theorem any_getByte (X : List (BitVec w)) {n : Nat} (hn : n ≤ X.length * ciL w) :
    ((List.range (X.length * ciL w)).any fun i => decide (n ≤ i) && getByte X i != 0) =
      decide (¬ value X < 256 ^ n) := by
  have hlt := value_lt_bytes hbits X
  rw [Bool.eq_iff_iff, decide_eq_true_iff]
  constructor
  · intro hany hfits
    obtain ⟨i, _, hi⟩ := List.any_eq_true.mp hany
    rw [Bool.and_eq_true, decide_eq_true_eq, bne_iff_ne] at hi
    obtain ⟨hle, hbyte⟩ := hi
    have hpow : value X < 256 ^ i := Nat.lt_of_lt_of_le hfits (Nat.pow_le_pow_right (by decide) hle)
    rw [getByte_eq hw hbits, Nat.div_eq_of_lt hpow] at hbyte
    exact hbyte rfl
  · intro hbig
    by_contra hnone
    apply hbig
    have hzero : ∀ i, n ≤ i → i < X.length * ciL w → value X / 256 ^ i % 256 = 0 := by
      intro i hle hi
      have hbyte : getByte X i = 0 := by
        by_contra hne
        apply hnone
        refine List.any_eq_true.mpr ⟨i, List.mem_range.mpr hi, ?_⟩
        rw [Bool.and_eq_true, decide_eq_true_eq, bne_iff_ne]
        exact ⟨hle, hne⟩
      rw [getByte_eq hw hbits] at hbyte
      have htoNat := congrArg UInt8.toNat hbyte
      rwa [UInt8.toNat_ofNat'] at htoNat
    -- one byte less each time
    have hdown : ∀ k, k ≤ X.length * ciL w - n → value X < 256 ^ (X.length * ciL w - k) := by
      intro k
      induction k with
      | zero =>
        intro _
        exact hlt
      | succ k ih =>
        intro hk
        have hprev := ih (by omega)
        have hbyte := hzero (X.length * ciL w - (k + 1)) (by omega) (by omega)
        have hexp : X.length * ciL w - k = X.length * ciL w - (k + 1) + 1 := by omega
        rw [hexp, Nat.pow_succ] at hprev
        have hquot := (Nat.div_lt_iff_lt_mul (Nat.pos_of_ne_zero (by simp))).mpr
          (Nat.mul_comm _ _ ▸ hprev)
        rw [Nat.mod_eq_of_lt hquot] at hbyte
        exact Nat.lt_of_div_eq_zero (Nat.pos_of_ne_zero (by simp)) hbyte
    have hend := hdown (X.length * ciL w - n) (Nat.le_refl _)
    rwa [Nat.sub_sub_self hn] at hend

theorem mbedtlsMpiCoreWriteLe_eq (X : List (BitVec w)) (n : Nat) :
    mbedtlsMpiCoreWriteLe X n =
      if value X < 256 ^ n then .ok (toLE n (value X)) else .error .bufferTooSmall := by
  have hlt := value_lt_bytes hbits X
  unfold mbedtlsMpiCoreWriteLe
  simp only [map_getByte hw hbits]
  split
  · next hlong =>
    have hfits : value X < 256 ^ n :=
      Nat.lt_of_lt_of_le hlt (Nat.pow_le_pow_right (by decide) (Nat.le_of_lt hlong))
    have hsplit := toLE_add (n - X.length * ciL w) (X.length * ciL w) (value X)
    have hzeros : toLE (n - X.length * ciL w) 0 =
        List.replicate (n - X.length * ciL w) 0 := by
      have hreverse := congrArg List.reverse (toBE_zero (n - X.length * ciL w))
      rwa [toBE, List.reverse_reverse, List.reverse_replicate] at hreverse
    rw [Nat.add_sub_cancel' (Nat.le_of_lt hlong), Nat.div_eq_of_lt hlt, hzeros] at hsplit
    rw [if_pos hfits, hsplit]
  · next hshort =>
    rw [any_getByte hw hbits X (Nat.not_lt.mp hshort)]
    by_cases hfits : value X < 256 ^ n
    · rw [if_neg (by simpa using hfits), if_pos hfits]
    · rw [if_pos (by simpa using hfits), if_neg hfits]

theorem mbedtlsMpiCoreWriteBe_eq (X : List (BitVec w)) (n : Nat) :
    mbedtlsMpiCoreWriteBe X n =
      if value X < 256 ^ n then .ok (toBE n (value X)) else .error .bufferTooSmall := by
  by_cases hfits : value X < 256 ^ n
  · rw [mbedtlsMpiCoreWriteBe_of_lt hw hbits hfits, if_pos hfits]
  have hshort : ¬ X.length * ciL w < n := by
    intro hlong
    exact hfits (Nat.lt_of_lt_of_le (value_lt_bytes hbits X)
      (Nat.pow_le_pow_right (by decide) (Nat.le_of_lt hlong)))
  unfold mbedtlsMpiCoreWriteBe
  rw [if_neg hshort, any_getByte hw hbits X (Nat.not_lt.mp hshort),
    if_pos (by simpa using hfits), if_neg hfits]

omit hw in
theorem value_ofNat_of_length {v n limbs : Nat} (hv : v < 256 ^ n) (hroom : n ≤ limbs * ciL w) :
    value (ofNat w limbs v) = v := by
  apply value_ofNat_of_lt
  calc v < 256 ^ n := hv
    _ ≤ 256 ^ (limbs * ciL w) := Nat.pow_le_pow_right (by decide) hroom
    _ = 2 ^ (w * limbs) := by
        rw [Nat.mul_comm limbs, Nat.pow_mul, ← two_pow_limb hbits, ← Nat.pow_mul]

end Bytes

/-- **Bignums as bytes.** An export succeeds exactly where the number fits into the output; an
input is read exactly where its bytes, leading zeros included, fit into the limbs. -/
theorem mpi_core_bytes_exact (hw : w = 32 ∨ w = 64) :
    (∀ (X : List (BitVec w)) (n : Nat),
      mbedtlsMpiCoreWriteBe X n =
        if value X < 256 ^ n then .ok (toBE n (value X)) else .error .bufferTooSmall) ∧
    (∀ (X : List (BitVec w)) (n : Nat),
      mbedtlsMpiCoreWriteLe X n =
        if value X < 256 ^ n then .ok (toLE n (value X)) else .error .bufferTooSmall) ∧
    (∀ (isBigEndian : Bool) (limbs : Nat) (input : ByteString),
      if input.length ≤ limbs * ciL w then
        ∃ X : List (BitVec w), mbedtlsMpiCoreReadBe isBigEndian limbs input = .ok X ∧
          X.length = limbs ∧ value X = ofBE input
      else (mbedtlsMpiCoreReadBe isBigEndian limbs input : Except MpiError (List (BitVec w))) =
        .error .bufferTooSmall) ∧
    (∀ (limbs : Nat) (input : ByteString),
      if input.length ≤ limbs * ciL w then
        ∃ X : List (BitVec w), mbedtlsMpiCoreReadLe limbs input = .ok X ∧
          X.length = limbs ∧ value X = ofLE input
      else (mbedtlsMpiCoreReadLe limbs input : Except MpiError (List (BitVec w))) =
        .error .bufferTooSmall) ∧
    ∀ (isBigEndian : Bool) (X : List (BitVec w)) (n limbs : Nat), value X < 256 ^ n →
      n ≤ limbs * ciL w →
      (∃ output, mbedtlsMpiCoreWriteBe X n = .ok output ∧ ∃ Y : List (BitVec w),
        mbedtlsMpiCoreReadBe isBigEndian limbs output = .ok Y ∧ Y.length = limbs ∧
          value Y = value X) ∧
      ∃ output, mbedtlsMpiCoreWriteLe X n = .ok output ∧ ∃ Y : List (BitVec w),
        mbedtlsMpiCoreReadLe limbs output = .ok Y ∧ Y.length = limbs ∧ value Y = value X := by
  have hciL : 0 < ciL w := by
    rcases hw with rfl | rfl <;> decide
  have hbits : w = 8 * ciL w := by
    rcases hw with rfl | rfl <;> decide
  refine ⟨mbedtlsMpiCoreWriteBe_eq hciL hbits, mbedtlsMpiCoreWriteLe_eq hciL hbits, ?_, ?_, ?_⟩
  · intro isBigEndian limbs input
    have hread := mbedtlsMpiCoreReadBe_eq hciL hbits isBigEndian limbs input
    split
    · next hroom =>
      rw [if_pos hroom] at hread
      exact ⟨_, hread, length_ofNat _ _, value_ofNat_of_length hbits (ofBE_lt input) hroom⟩
    · next hroom => rwa [if_neg hroom] at hread
  · intro limbs input
    have hread := mbedtlsMpiCoreReadLe_eq hciL hbits limbs input
    split
    · next hroom =>
      rw [if_pos hroom] at hread
      exact ⟨_, hread, length_ofNat _ _, value_ofNat_of_length hbits (ofLE_lt input) hroom⟩
    · next hroom => rwa [if_neg hroom] at hread
  · intro isBigEndian X n limbs hfits hroom
    constructor
    · refine ⟨toBE n (value X), ?_, ofNat w limbs (value X), ?_, length_ofNat _ _,
        value_ofNat_of_length hbits hfits hroom⟩
      · rw [mbedtlsMpiCoreWriteBe_eq hciL hbits, if_pos hfits]
      · rw [mbedtlsMpiCoreReadBe_eq hciL hbits, length_toBE, if_pos hroom, ofBE_toBE,
          Nat.mod_eq_of_lt hfits]
    · refine ⟨toLE n (value X), ?_, ofNat w limbs (value X), ?_, length_ofNat _ _,
        value_ofNat_of_length hbits hfits hroom⟩
      · rw [mbedtlsMpiCoreWriteLe_eq hciL hbits, if_pos hfits]
      · rw [mbedtlsMpiCoreReadLe_eq hciL hbits, length_toLE, if_pos hroom, ofLE_toLE_of_lt hfits]

/-- Three bytes into a limb of eight. -/
theorem mpi_core_bytes_exact_limb64 :
    ((64 : Nat) = 32 ∨ (64 : Nat) = 64) ∧
      mbedtlsMpiCoreWriteBe [(0x1234 : BitVec 64)] 3 =
        if value [(0x1234 : BitVec 64)] < 256 ^ 3 then .ok (toBE 3 (value [(0x1234 : BitVec 64)]))
        else .error .bufferTooSmall :=
  ⟨Or.inr rfl, (mpi_core_bytes_exact (w := 64) (Or.inr rfl)).1 [0x1234] 3⟩

/-- Nine zero bytes denote a number that fits, and are refused. -/
theorem mpi_core_leading_zeros :
    ofBE (List.replicate 9 0) < 2 ^ (64 * 1) ∧
      (mbedtlsMpiCoreReadBe false 1 (List.replicate 9 0) : Except MpiError (List (BitVec 64))) =
        .error .bufferTooSmall ∧
      (mbedtlsMpiCoreReadLe 1 (List.replicate 9 0) : Except MpiError (List (BitVec 64))) =
        .error .bufferTooSmall := by
  decide

end TfPsaCrypto
