import Mathlib.Data.Nat.Size
import TfPsaCrypto.Library.Bytes

/-!
# DER elements

Length octets in their shortest form, elements, and the contents of a non-negative INTEGER.
-/

namespace Der

open Bytes

def byteCount (n : Nat) : Nat := (n.size + 7) / 8

theorem lt_byteCount {k n : Nat} : k < byteCount n ↔ 256 ^ k ≤ n := by
  have hpow : 256 ^ k = 2 ^ (8 * k) := by rw [Nat.pow_mul]
  rw [hpow, ← Nat.lt_size, byteCount]
  omega

theorem byteCount_le {k n : Nat} : byteCount n ≤ k ↔ n < 256 ^ k := by
  rw [← Nat.not_lt, lt_byteCount, Nat.not_le]

theorem lt_pow_byteCount (n : Nat) : n < 256 ^ byteCount n := byteCount_le.mp (Nat.le_refl _)

@[simp] theorem byteCount_zero : byteCount 0 = 0 := by
  simp [byteCount]

theorem byteCount_of_pos {n : Nat} (h : 0 < n) : byteCount n = byteCount (n / 256) + 1 := by
  apply Nat.le_antisymm
  · rw [byteCount_le, Nat.pow_succ, ← Nat.div_lt_iff_lt_mul (by decide)]
    exact lt_pow_byteCount (n / 256)
  rcases Nat.eq_zero_or_pos (byteCount (n / 256)) with hzero | hpos
  · rw [hzero, Nat.zero_add, Nat.succ_le_iff, lt_byteCount]
    exact h
  · rw [Nat.succ_le_iff, lt_byteCount]
    have hhigh : 256 ^ (byteCount (n / 256) - 1) ≤ n / 256 := lt_byteCount.mp (by omega)
    rw [Nat.le_div_iff_mul_le (by decide), ← Nat.pow_succ] at hhigh
    rwa [Nat.succ_eq_add_one, Nat.sub_add_cancel hpos] at hhigh

theorem ofBE_toBE_byteCount (n : Nat) : ofBE (toBE (byteCount n) n) = n := by
  rw [ofBE_toBE, Nat.mod_eq_of_lt (lt_pow_byteCount n)]

theorem dropWhile_zero (bs : ByteString) :
    bs.dropWhile (· = 0) = toBE (byteCount (ofBE bs)) (ofBE bs) := by
  induction bs with
  | nil => simp
  | cons b bs ih =>
    have hvalue := ofBE_cons b bs
    by_cases hb : b = 0
    · subst hb
      rw [List.dropWhile_cons_of_pos (by simp), ih, hvalue]
      simp
    have hpos : 1 ≤ b.toNat := by
      rw [Nat.one_le_iff_ne_zero]
      intro hzero
      exact hb (UInt8.toNat_inj.mp hzero)
    have hcount : byteCount (ofBE (b :: bs)) = bs.length + 1 := by
      apply Nat.le_antisymm
      · rw [byteCount_le]
        exact ofBE_lt (b :: bs)
      · rw [Nat.succ_le_iff, lt_byteCount, hvalue]
        exact Nat.le_add_right_of_le (Nat.le_mul_of_pos_left _ hpos)
    rw [List.dropWhile_cons_of_neg (by simpa using hb), hcount]
    exact (toBE_ofBE (b :: bs)).symm

/-! ## Lengths and elements -/

def lengthBytes (n : Nat) : ByteString :=
  if n < 128 then [UInt8.ofNat n]
  else UInt8.ofNat (0x80 + byteCount n) :: toBE (byteCount n) n

theorem length_lengthBytes (n : Nat) :
    (lengthBytes n).length = 1 + if n < 128 then 0 else byteCount n := by
  unfold lengthBytes
  split
  · rfl
  · rw [List.length_cons, length_toBE, Nat.add_comm]

def element (tag : UInt8) (contents : ByteString) : ByteString :=
  tag :: (lengthBytes contents.length ++ contents)

theorem length_element (tag : UInt8) (contents : ByteString) :
    (element tag contents).length = 1 + (lengthBytes contents.length).length + contents.length := by
  unfold element
  simp only [List.length_cons, List.length_append]
  omega

/-! ## INTEGER -/

def integerBytes (n : Nat) : ByteString := toBE (n.size / 8 + 1) n

@[simp] theorem length_integerBytes (n : Nat) : (integerBytes n).length = n.size / 8 + 1 := by
  simp [integerBytes]

theorem ofBE_integerBytes (n : Nat) : ofBE (integerBytes n) = n := by
  unfold integerBytes
  rw [ofBE_toBE, Nat.mod_eq_of_lt]
  have hpow : 256 ^ (n.size / 8 + 1) = 2 ^ (8 * (n.size / 8 + 1)) := by rw [Nat.pow_mul]
  rw [hpow, ← Nat.size_le]
  omega

def unsignedBytes (n : Nat) : ByteString := toBE (max 1 (byteCount n)) n

theorem headD_unsignedBytes (n : Nat) :
    128 ≤ ((unsignedBytes n).headD 0).toNat ↔ 8 * max 1 (byteCount n) ≤ n.size := by
  have hlt : n < 256 ^ max 1 (byteCount n) := byteCount_le.mp (Nat.le_max_right _ _)
  have hpos : 0 < max 1 (byteCount n) := Nat.lt_of_lt_of_le Nat.zero_lt_one (Nat.le_max_left _ _)
  unfold unsignedBytes
  generalize max 1 (byteCount n) = c at hlt hpos
  obtain ⟨c, rfl⟩ : ∃ c', c = c' + 1 := ⟨c - 1, by omega⟩
  have hhead : (toBE (c + 1) n).headD 0 = UInt8.ofNat (n / 256 ^ c) := by
    rw [Nat.add_comm, toBE_add]
    rfl
  have hbyte : n / 256 ^ c < 256 := by
    rw [Nat.div_lt_iff_lt_mul (Nat.pow_pos (by decide)), ← Nat.pow_succ']
    exact hlt
  have hsplit : 2 ^ (8 * c + 7) = 128 * 256 ^ c := by
    rw [Nat.pow_add, Nat.pow_mul]
    ring
  have hsize : 8 * (c + 1) ≤ n.size ↔ 8 * c + 7 < n.size := by omega
  rw [hhead, UInt8.toNat_ofNat', Nat.mod_eq_of_lt hbyte, hsize, Nat.lt_size, hsplit,
    Nat.le_div_iff_mul_le (Nat.pow_pos (by decide))]

theorem integerBytes_eq (n : Nat) :
    integerBytes n =
      if 128 ≤ ((unsignedBytes n).headD 0).toNat then 0 :: unsignedBytes n
      else unsignedBytes n := by
  have hsize : n.size ≤ 8 * max 1 (byteCount n) := by
    have hle : n.size ≤ 8 * byteCount n := by
      unfold byteCount
      omega
    omega
  have hcount : 8 * byteCount n < n.size + 8 := by
    unfold byteCount
    omega
  unfold integerBytes
  split
  · next htop =>
    rw [headD_unsignedBytes] at htop
    have hlen : n.size / 8 + 1 = 1 + max 1 (byteCount n) := by omega
    rw [hlen, toBE_add, Nat.div_eq_of_lt (byteCount_le.mp (Nat.le_max_right _ _)), toBE_zero]
    rfl
  · next htop =>
    rw [headD_unsignedBytes] at htop
    have hlen : n.size / 8 + 1 = max 1 (byteCount n) := by omega
    rw [hlen]
    rfl

def IsIntegerContents (contents : ByteString) : Prop :=
  ∃ b bs, contents = b :: bs ∧ b.toNat < 128 ∧ ∀ c cs, bs = c :: cs → b = 0 → 128 ≤ c.toNat

theorem isIntegerContents_iff (contents : ByteString) :
    IsIntegerContents contents ↔ contents = integerBytes (ofBE contents) := by
  have hpow : ∀ k, 256 ^ k = 2 ^ (8 * k) := fun k => by rw [Nat.pow_mul]
  have hbytes := toBE_ofBE contents
  have hshort : contents = integerBytes (ofBE contents) ↔
      contents.length = (ofBE contents).size / 8 + 1 := by
    constructor
    · intro h
      have hlen := congrArg List.length h
      rwa [length_integerBytes] at hlen
    · intro h
      rw [integerBytes, ← h, hbytes]
  rw [hshort]
  rcases contents with _ | ⟨b, bs⟩
  · constructor
    · rintro ⟨b, bs, hnil, _⟩
      exact absurd hnil (by simp)
    · intro hlen
      simp at hlen
  · have hlow := ofBE_lt bs
    have hvalue := ofBE_cons b bs
    rw [List.length_cons, Nat.add_right_cancel_iff]
    have hhead : (ofBE (b :: bs)).size ≤ 8 * bs.length + 7 ↔ b.toNat < 128 := by
      have hsplit : 2 ^ (8 * bs.length + 7) = 128 * 256 ^ bs.length := by
        rw [Nat.pow_add, hpow]
        ring
      rw [Nat.size_le, hsplit, hvalue]
      constructor
      · intro hlt
        by_contra hge
        have hmul := Nat.mul_le_mul_right (256 ^ bs.length) (Nat.not_lt.mp hge)
        omega
      · intro hlt
        have hmul := Nat.mul_le_mul_right (256 ^ bs.length) (Nat.succ_le_iff.mpr hlt)
        rw [Nat.succ_mul] at hmul
        omega
    have hneeded : 8 * bs.length ≤ (ofBE (b :: bs)).size ↔
        ∀ c cs, bs = c :: cs → b = 0 → 128 ≤ c.toNat := by
      rcases bs with _ | ⟨c, cs⟩
      · simp
      have hlowc := ofBE_lt cs
      have hvaluec := ofBE_cons c cs
      have hpred : 8 * (c :: cs).length = 8 * cs.length + 7 + 1 := by
        rw [List.length_cons]
        omega
      have hsplit : 2 ^ (8 * cs.length + 7) = 128 * 256 ^ cs.length := by
        rw [Nat.pow_add, hpow]
        ring
      rw [hpred, Nat.succ_le_iff, Nat.lt_size, hsplit, hvalue, hvaluec, List.length_cons,
        Nat.pow_succ]
      constructor
      · rintro hle _ _ heq rfl
        obtain ⟨rfl, rfl⟩ := List.cons.inj heq
        by_contra hge
        have hmul := Nat.mul_le_mul_right (256 ^ cs.length)
          (Nat.succ_le_iff.mpr (Nat.not_le.mp hge))
        rw [Nat.succ_mul] at hmul
        simp only [UInt8.toNat_zero, Nat.zero_mul, Nat.zero_add] at hle
        omega
      · intro hbit
        by_cases hzero : b = 0
        · have hmul := Nat.mul_le_mul_right (256 ^ cs.length) (hbit c cs rfl hzero)
          omega
        have hb : 1 ≤ b.toNat := by
          rw [Nat.one_le_iff_ne_zero]
          intro hb
          exact hzero (UInt8.toNat_inj.mp hb)
        have hmul := Nat.mul_le_mul_right (256 ^ cs.length * 256) hb
        omega
    constructor
    · rintro ⟨b', bs', heq, hb, hbit⟩
      obtain ⟨rfl, rfl⟩ := List.cons.inj heq
      have hge := hneeded.mpr hbit
      omega
    · intro hlen
      exact ⟨b, bs, rfl, hhead.mp (by omega), hneeded.mp (by omega)⟩

end Der
