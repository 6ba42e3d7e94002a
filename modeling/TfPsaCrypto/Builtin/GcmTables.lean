import TfPsaCrypto.Library.BinaryField
import TfPsaCrypto.Library.Bytes

/-!
# GHASH with tables

The tables of `gcm.c` and the two multiplications that use them. An entry is the 16 bytes of two
words, in the order of the host.
-/

namespace TfPsaCrypto.Ghash

open Bytes BinaryField

/-! ## Words of the host -/

def ofHost (isBigEndian : Bool) (bs : ByteString) : Nat := if isBigEndian then ofBE bs else ofLE bs

def toHost (isBigEndian : Bool) (n v : Nat) : ByteString :=
  if isBigEndian then toBE n v else toLE n v

/-! ## Tables -/

structure Table where
  entry : Nat → ByteString

def Table.set (H : Table) (i : Nat) (bs : ByteString) : Table where
  entry := Function.update H.entry i bs

theorem Table.set_self (H : Table) (i : Nat) (bs : ByteString) : (H.set i bs).entry i = bs := by
  exact Function.update_self _ _ _

theorem Table.set_of_ne {n i : Nat} (h : n ≠ i) (H : Table) (bs : ByteString) :
    (H.set i bs).entry n = H.entry n := by
  exact Function.update_of_ne h _ _

def gcmGenTableRightshift (src : ByteString) : ByteString :=
  let dst1 := toBE 8 (ofBE (slice src 8 8) >>> 1)
  let dst1 := dst1.set 0 (dst1.getD 0 0 ||| (src.getD 7 0 &&& 0x01) <<< 7)
  let dst0 := toBE 8 (ofBE (slice src 0 8) >>> 1)
  let dst0 := dst0.set 0 (dst0.getD 0 0 ^^^ if src.getD 15 0 &&& 0x01 ≠ 0 then 0xE1 else 0)
  dst0 ++ dst1

/-- `for (i = 2^(k-1); i > 0; i >>= 1)` of the shifts. -/
def shiftLoop : Nat → Table → Table
  | 0, H => H
  | k + 1, H => shiftLoop k (H.set (2 ^ k) (gcmGenTableRightshift (H.entry (2 ^ k * 2))))

def pack (isBigEndian : Bool) (entry : ByteString) : ByteString :=
  toBE 8 (ofHost isBigEndian (slice entry 0 8)) ++ toBE 8 (ofHost isBigEndian (slice entry 8 8))

def packLoop (isBigEndian : Bool) : Nat → Table → Table
  | 0, H => H
  | k + 1, H => packLoop isBigEndian k (H.set (2 ^ k) (pack isBigEndian (H.entry (2 ^ k))))

def rowLoop (i : Nat) : Nat → Table → Table
  | 0, H => H
  | n + 1, H =>
    let H := rowLoop i n H
    H.set (i + (n + 1)) (xor (H.entry i) (H.entry (n + 1)))

/-- `for (i = 2; i < MBEDTLS_GCM_HTABLE_SIZE; i <<= 1)`, up to `i = 2^k`. -/
def xorLoop : Nat → Table → Table
  | 0, H => H
  | k + 1, H => rowLoop (2 ^ (k + 1)) (2 ^ (k + 1) - 1) (xorLoop k H)

def gcmGenTable (isBigEndian largeTable : Bool) (encrypt : ByteString → Except Int ByteString)
    (H : Table) : Except Int Table := do
  let h ← encrypt (List.replicate 16 0)
  .ok (if largeTable then
    xorLoop 7 (shiftLoop 7 ((H.set (2 ^ 7) h).set 0 (List.replicate 16 0)))
  else
    xorLoop 3 (packLoop isBigEndian 4
      (shiftLoop 3 ((H.set (2 ^ 3) h).set 0 (List.replicate 16 0)))))

/-! ## Multiplication with the large table -/

def last8 : List Nat := [
  0x0000, 0xc201, 0x8403, 0x4602, 0x0807, 0xca06, 0x8c04, 0x4e05,
  0x100e, 0xd20f, 0x940d, 0x560c, 0x1809, 0xda08, 0x9c0a, 0x5e0b,
  0x201c, 0xe21d, 0xa41f, 0x661e, 0x281b, 0xea1a, 0xac18, 0x6e19,
  0x3012, 0xf213, 0xb411, 0x7610, 0x3815, 0xfa14, 0xbc16, 0x7e17,
  0x4038, 0x8239, 0xc43b, 0x063a, 0x483f, 0x8a3e, 0xcc3c, 0x0e3d,
  0x5036, 0x9237, 0xd435, 0x1634, 0x5831, 0x9a30, 0xdc32, 0x1e33,
  0x6024, 0xa225, 0xe427, 0x2626, 0x6823, 0xaa22, 0xec20, 0x2e21,
  0x702a, 0xb22b, 0xf429, 0x3628, 0x782d, 0xba2c, 0xfc2e, 0x3e2f,
  0x8070, 0x4271, 0x0473, 0xc672, 0x8877, 0x4a76, 0x0c74, 0xce75,
  0x907e, 0x527f, 0x147d, 0xd67c, 0x9879, 0x5a78, 0x1c7a, 0xde7b,
  0xa06c, 0x626d, 0x246f, 0xe66e, 0xa86b, 0x6a6a, 0x2c68, 0xee69,
  0xb062, 0x7263, 0x3461, 0xf660, 0xb865, 0x7a64, 0x3c66, 0xfe67,
  0xc048, 0x0249, 0x444b, 0x864a, 0xc84f, 0x0a4e, 0x4c4c, 0x8e4d,
  0xd046, 0x1247, 0x5445, 0x9644, 0xd841, 0x1a40, 0x5c42, 0x9e43,
  0xe054, 0x2255, 0x6457, 0xa656, 0xe853, 0x2a52, 0x6c50, 0xae51,
  0xf05a, 0x325b, 0x7459, 0xb658, 0xf85d, 0x3a5c, 0x7c5e, 0xbe5f,
  0x00e1, 0xc2e0, 0x84e2, 0x46e3, 0x08e6, 0xcae7, 0x8ce5, 0x4ee4,
  0x10ef, 0xd2ee, 0x94ec, 0x56ed, 0x18e8, 0xdae9, 0x9ceb, 0x5eea,
  0x20fd, 0xe2fc, 0xa4fe, 0x66ff, 0x28fa, 0xeafb, 0xacf9, 0x6ef8,
  0x30f3, 0xf2f2, 0xb4f0, 0x76f1, 0x38f4, 0xfaf5, 0xbcf7, 0x7ef6,
  0x40d9, 0x82d8, 0xc4da, 0x06db, 0x48de, 0x8adf, 0xccdd, 0x0edc,
  0x50d7, 0x92d6, 0xd4d4, 0x16d5, 0x58d0, 0x9ad1, 0xdcd3, 0x1ed2,
  0x60c5, 0xa2c4, 0xe4c6, 0x26c7, 0x68c2, 0xaac3, 0xecc1, 0x2ec0,
  0x70cb, 0xb2ca, 0xf4c8, 0x36c9, 0x78cc, 0xbacd, 0xfccf, 0x3ece,
  0x8091, 0x4290, 0x0492, 0xc693, 0x8896, 0x4a97, 0x0c95, 0xce94,
  0x909f, 0x529e, 0x149c, 0xd69d, 0x9898, 0x5a99, 0x1c9b, 0xde9a,
  0xa08d, 0x628c, 0x248e, 0xe68f, 0xa88a, 0x6a8b, 0x2c89, 0xee88,
  0xb083, 0x7282, 0x3480, 0xf681, 0xb884, 0x7a85, 0x3c87, 0xfe86,
  0xc0a9, 0x02a8, 0x44aa, 0x86ab, 0xc8ae, 0x0aaf, 0x4cad, 0x8eac,
  0xd0a7, 0x12a6, 0x54a4, 0x96a5, 0xd8a0, 0x1aa1, 0x5ca3, 0x9ea2,
  0xe0b5, 0x22b4, 0x64b6, 0xa6b7, 0xe8b2, 0x2ab3, 0x6cb1, 0xaeb0,
  0xf0bb, 0x32ba, 0x74b8, 0xb6b9, 0xf8bc, 0x3abd, 0x7cbf, 0xbebe]

def shiftWord (isBigEndian : Bool) (z : ByteString) (k : Nat) : ByteString :=
  let v := ofHost isBigEndian (slice z (8 * k) 8)
  storeAt z (8 * k) (toHost isBigEndian 8 (if isBigEndian then v >>> 8 else v <<< 8))

/-- One round of `gcm_mult_largetable`, for the entry of the byte `x[i]`. -/
def largeRound (isBigEndian : Bool) (z entry : ByteString) : ByteString :=
  let z := xor z entry
  let rem := (z.getD 15 0).toNat
  let z := shiftWord isBigEndian z 1
  let z := z.set 8 (z.getD 7 0)
  let z := shiftWord isBigEndian z 0
  let v := last8.getD rem 0
  let v := if isBigEndian then ofLE (toBE 2 v) else v
  storeAt z 0 (toHost isBigEndian 2 (ofHost isBigEndian (slice z 0 2) ^^^ v))

def largeLoop (isBigEndian : Bool) (x : ByteString) (H : Table) : Nat → ByteString → ByteString
  | 0, z => z
  | i + 1, z =>
    largeLoop isBigEndian x H i (largeRound isBigEndian z (H.entry (x.getD (i + 1) 0).toNat))

def gcmMultLargetable (isBigEndian : Bool) (x : ByteString) (H : Table) : ByteString :=
  xor (largeLoop isBigEndian x H 15 (List.replicate 16 0)) (H.entry (x.getD 0 0).toNat)

/-! ## Multiplication with the small table -/

def last4 : List Nat := [
  0x0000, 0x1c20, 0x3840, 0x2460,
  0x7080, 0x6ca0, 0x48c0, 0x54e0,
  0xe100, 0xfd20, 0xd940, 0xc560,
  0x9180, 0x8da0, 0xa9c0, 0xb5e0]

structure Words where
  w0 : BitVec 64
  w1 : BitVec 64

def entryWords (isBigEndian : Bool) (entry : ByteString) : Words where
  w0 := BitVec.ofNat 64 (ofHost isBigEndian (slice entry 0 8))
  w1 := BitVec.ofNat 64 (ofHost isBigEndian (slice entry 8 8))

def Words.xor (z u : Words) : Words := { w0 := z.w0 ^^^ u.w0, w1 := z.w1 ^^^ u.w1 }

def smallShift (z : Words) : Words :=
  let rem := (z.w1 &&& 0xf).toNat
  let w1 := (z.w0 <<< 60) ||| (z.w1 >>> 4)
  let w0 := z.w0 >>> 4
  { w0 := w0 ^^^ (BitVec.ofNat 64 (last4.getD rem 0) <<< 48), w1 := w1 }

def smallLoop (isBigEndian : Bool) (x : ByteString) (H : Table) : Nat → Words → Words
  | 0, z => z
  | i + 1, z =>
    let lo := (x.getD i 0 &&& 0xf).toNat
    let hi := ((x.getD i 0 >>> 4) &&& 0xf).toNat
    let z := (smallShift z).xor (entryWords isBigEndian (H.entry lo))
    let z := (smallShift z).xor (entryWords isBigEndian (H.entry hi))
    smallLoop isBigEndian x H i z

def gcmMultSmalltable (isBigEndian : Bool) (x : ByteString) (H : Table) : ByteString :=
  let lo := (x.getD 15 0 &&& 0xf).toNat
  let hi := ((x.getD 15 0 >>> 4) &&& 0xf).toNat
  let z := smallShift (entryWords isBigEndian (H.entry lo))
  let z := z.xor (entryWords isBigEndian (H.entry hi))
  let z := smallLoop isBigEndian x H 15 z
  toBE 8 z.w0.toNat ++ toBE 8 z.w1.toNat

/-! ## Blocks as field elements -/

variable {as bs : ByteString}

noncomputable def element (bs : ByteString) : GF128 := ofHigh x (8 * bs.length) (ofBE bs)

@[simp] theorem element_nil : element [] = 0 := rfl

theorem element_append (as bs : ByteString) :
    element (as ++ bs) = element as + x ^ (8 * as.length) * element bs := by
  have hlt : ofBE bs < 2 ^ (8 * bs.length) := by
    have h := ofBE_lt bs
    rwa [show (256 : Nat) = 2 ^ 8 by rfl, ← Nat.pow_mul] at h
  unfold element
  rw [List.length_append, Nat.mul_add, ofBE_append, show (256 : Nat) = 2 ^ 8 by rfl, ← Nat.pow_mul,
    Nat.mul_comm (ofBE as)]
  exact ofHigh_append x _ _ hlt

theorem element_cons (b : UInt8) (bs : ByteString) :
    element (b :: bs) = element [b] + x ^ 8 * element bs := element_append [b] bs

theorem element_singleton (b : UInt8) : element [b] = ofHigh x 8 b.toNat := by
  unfold element
  rw [ofBE_cons, ofBE_nil]
  simp

theorem element_toBE {n v : Nat} (h : v < 2 ^ (8 * n)) :
    element (toBE n v) = ofHigh x (8 * n) v := by
  unfold element
  rw [length_toBE, ofBE_toBE, show (256 : Nat) = 2 ^ 8 by rfl, ← Nat.pow_mul, Nat.mod_eq_of_lt h]

theorem element_singleton_xor (a b : UInt8) : element [a ^^^ b] = element [a] + element [b] := by
  rw [element_singleton, element_singleton, element_singleton, UInt8.toNat_xor, ofHigh_xor]

@[simp] theorem element_zero (n : Nat) : element (List.replicate n 0) = 0 := by
  induction n with
  | zero => rfl
  | succ n ih =>
    rw [List.replicate_succ, element_cons, ih, element_singleton]
    simp

theorem element_xor (h : as.length = bs.length) :
    element (xor as bs) = element as + element bs := by
  induction as generalizing bs with
  | nil =>
    obtain rfl := List.eq_nil_of_length_eq_zero h.symm
    show element [] = element [] + element []
    simp
  | cons a as ih =>
    cases bs with
    | nil => cases h
    | cons b bs =>
      show element ((a ^^^ b) :: xor as bs) = _
      rw [element_cons, element_cons a, element_cons b, ih (by simpa using h),
        element_singleton_xor]
      ring

theorem element_set_xor (h : bs ≠ []) (e : UInt8) :
    element (bs.set 0 (bs.getD 0 0 ^^^ e)) = element bs + element [e] := by
  cases bs with
  | nil => exact absurd rfl h
  | cons b bs =>
    show element ((b ^^^ e) :: bs) = _
    rw [element_cons, element_cons b, element_singleton_xor]
    ring

theorem element_injective (ha : as.length = 16) (hb : bs.length = 16)
    (h : element as = element bs) : as = bs := by
  have hlt : ∀ cs : ByteString, cs.length = 16 → ofBE cs < 2 ^ 128 := by
    intro cs hcs
    have hlt := ofBE_lt cs
    rw [hcs] at hlt
    exact hlt
  have hvalue : ofBE as = ofBE bs := by
    apply Nat.eq_of_testBit_eq
    intro i
    by_cases hi : i < 128
    · unfold element at h
      rw [ha, hb] at h
      have hbit := ofBits_injective h (show 127 - i < 128 by omega)
      have hindex : 8 * 16 - 1 - (127 - i) = i := by omega
      rwa [hindex] at hbit
    · have hpow : 2 ^ 128 ≤ 2 ^ i := Nat.pow_le_pow_right (by decide) (by omega)
      rw [Nat.testBit_lt_two_pow (Nat.lt_of_lt_of_le (hlt as ha) hpow),
        Nat.testBit_lt_two_pow (Nat.lt_of_lt_of_le (hlt bs hb) hpow)]
  rw [← toBE_ofBE as, ← toBE_ofBE bs, hvalue, ha, hb]

/-! ## The remainder tables -/

theorem ofHigh_reduction : ofHigh x 8 0xE1 = x ^ 128 := by
  rw [x_pow]
  unfold ofHigh ofBits
  simp [Finset.sum_range_succ, Nat.testBit]
  ring

theorem ofHigh_reduction_shift {i c : Nat} (hi : i ≤ 16) (h : 2 ^ i * c = 0xE100) :
    ofHigh x 16 c = x ^ 128 * x ^ i := by
  have hbase : ofHigh x 16 0xE100 = x ^ 128 := by
    rw [← ofHigh_reduction]
    exact ofHigh_mul x 8 8 0xE1
  have hlt : c < 2 ^ (16 - i) := by
    have hpow : 2 ^ i * 2 ^ (16 - i) = 2 ^ 16 := by rw [← Nat.pow_add, Nat.add_sub_cancel' hi]
    apply Nat.lt_of_mul_lt_mul_left (a := 2 ^ i)
    rw [h, hpow]
    decide
  have hlow := ofHigh_of_lt x i hlt
  have hhigh := ofHigh_mul x (16 - i) i c
  rw [Nat.add_sub_cancel' hi] at hlow
  rw [Nat.sub_add_cancel hi, h, hbase] at hhigh
  rw [hlow, ← hhigh, mul_comm]

theorem ofHigh_last4 {r : Nat} (hr : r < 16) :
    ofHigh x 16 (last4.getD r 0) = x ^ 128 * ofHigh x 4 r := by
  have htable : ∀ r, r < 16 → last4.getD r 0 = (List.range 4).foldl
      (fun v i => v ^^^ if r.testBit (4 - 1 - i) then last4.getD (2 ^ (4 - 1 - i)) 0 else 0) 0 := by
    decide
  have hshift : ∀ i, i < 4 → 2 ^ i * last4.getD (2 ^ (4 - 1 - i)) 0 = 0xE100 := by decide
  rw [htable r hr]
  exact ofHigh_table x (fun i hi => ofHigh_reduction_shift (by omega) (hshift i hi)) r

/-- The bytes of an entry of `last8`, the low one first. -/
def last8Bytes (r : Nat) : ByteString := toLE 2 (last8.getD r 0)

theorem element_last8 {r : Nat} (hr : r < 256) :
    element (last8Bytes r) = x ^ 128 * ofHigh x 8 r := by
  have htable : ∀ r, r < 256 → ofBE (last8Bytes r) = (List.range 8).foldl
      (fun v i => v ^^^ if r.testBit (8 - 1 - i) then ofBE (last8Bytes (2 ^ (8 - 1 - i))) else 0)
        0 := by
    decide +kernel
  have hshift : ∀ i, i < 8 → 2 ^ i * ofBE (last8Bytes (2 ^ (8 - 1 - i))) = 0xE100 := by
    decide +kernel
  have hlen : (last8Bytes r).length = 2 := length_toLE 2 _
  unfold element
  rw [hlen, htable r hr]
  exact ofHigh_table x (fun i hi => ofHigh_reduction_shift (by omega) (hshift i hi)) r

/-! ## Table construction -/

theorem and_one_byte (b : UInt8) : (b &&& 1).toNat = b.toNat % 2 := by
  rw [UInt8.toNat_and]
  exact Nat.and_one_is_mod b.toNat

theorem ofBE_mod_two {n : Nat} (h : bs.length = n + 1) : ofBE bs % 2 = (bs.getD n 0).toNat % 2 := by
  have hne : bs ≠ [] := by
    rintro rfl
    cases h
  obtain ⟨init, last, rfl⟩ : ∃ init last, bs = init ++ [last] :=
    ⟨_, _, (List.dropLast_append_getLast hne).symm⟩
  have hinit : init.length = n := by simpa using h
  have hlast : (init ++ [last]).getD n 0 = last := by
    rw [← hinit, List.getD_eq_getElem?_getD, List.getElem?_append_right (Nat.le_refl _)]
    simp
  rw [hlast, ofBE_snoc]
  omega

theorem ofHigh_one (v : Nat) : ofHigh x 1 (v % 2) = if v % 2 = 1 then 1 else 0 := by
  unfold ofHigh ofBits
  rcases Nat.mod_two_eq_zero_or_one v with h | h <;> rw [h] <;> simp

theorem element_gcmGenTableRightshift {src : ByteString} (h : src.length = 16) :
    element (gcmGenTableRightshift src) = x * element src := by
  obtain ⟨s0, s1, rfl, h0, h1⟩ : ∃ s0 s1, src = s0 ++ s1 ∧ s0.length = 8 ∧ s1.length = 8 :=
    ⟨src.take 8, src.drop 8, (List.take_append_drop 8 src).symm, by simp [h], by simp [h]⟩
  have hlt : ∀ s : ByteString, s.length = 8 → ofBE s < 2 ^ 64 := by
    intro s hs
    have hlt := ofBE_lt s
    rw [hs] at hlt
    exact hlt
  have ha := hlt s0 h0
  have hb := hlt s1 h1
  have hslice0 : slice (s0 ++ s1) 0 8 = s0 := slice_head h0
  have hslice1 : slice (s0 ++ s1) 8 8 = s1 := by
    rw [slice_tail (by omega), h0, slice_all h1]
  have hget7 : (s0 ++ s1).getD 7 0 = s0.getD 7 0 := List.getD_append _ _ _ _ (by omega)
  have hget15 : (s0 ++ s1).getD 15 0 = s1.getD 7 0 := by
    rw [List.getD_eq_getElem?_getD, List.getElem?_append_right (by omega), h0,
      ← List.getD_eq_getElem?_getD]
  -- the bit that crosses the words, and the bit that leaves the block
  have hcross := ofBE_mod_two h0
  have hleave := ofBE_mod_two h1
  have hshift0 := ofHigh_shiftRight x 63 (k := 1) ha
  have hshift1 := ofHigh_shiftRight x 63 (k := 1) hb
  rw [show 2 ^ 1 = 2 by rfl, show 63 + 1 = 64 by rfl, ofHigh_one, pow_one] at hshift0 hshift1
  have hlow0 : ofBE s0 >>> 1 < 2 ^ (8 * 8) := Nat.lt_of_le_of_lt (Nat.shiftRight_le _ _) ha
  have hlow1 : ofBE s1 >>> 1 < 2 ^ (8 * 8) := Nat.lt_of_le_of_lt (Nat.shiftRight_le _ _) hb
  have hdst0 : element ((toBE 8 (ofBE s0 >>> 1)).set 0 ((toBE 8 (ofBE s0 >>> 1)).getD 0 0 ^^^
      if s1.getD 7 0 &&& 0x01 ≠ 0 then 0xE1 else 0)) =
        ofHigh x 64 (ofBE s0 >>> 1) + x ^ 128 * if ofBE s1 % 2 = 1 then 1 else 0 := by
    rw [element_set_xor (by rw [← List.length_pos_iff, length_toBE]; decide), element_toBE hlow0]
    congr 1
    have hbit := and_one_byte (s1.getD 7 0)
    rw [hleave]
    by_cases hodd : (s1.getD 7 0).toNat % 2 = 1
    · rw [if_pos (fun hzero => by rw [hzero, hodd] at hbit; exact absurd hbit (by decide)),
        if_pos hodd, mul_one, element_singleton]
      exact ofHigh_reduction
    · rw [if_neg (not_ne_iff.mpr (UInt8.toNat_inj.mp (by rw [hbit]; simpa using hodd))),
        if_neg hodd, mul_zero, element_singleton]
      exact ofHigh_zero x 8
  have hdst1 : element ((toBE 8 (ofBE s1 >>> 1)).set 0 ((toBE 8 (ofBE s1 >>> 1)).getD 0 0 |||
      (s0.getD 7 0 &&& 0x01) <<< 7)) =
        ofHigh x 64 (ofBE s1 >>> 1) + if ofBE s0 % 2 = 1 then 1 else 0 := by
    have hhead : ((toBE 8 (ofBE s1 >>> 1)).getD 0 0).toNat < 128 := by
      rw [getD_toBE (by decide), UInt8.toNat_ofNat', Nat.shiftRight_eq_div_pow]
      omega
    have hor : ∀ v, v < 128 → v ||| 128 = v ^^^ 128 := by decide
    have hbit := and_one_byte (s0.getD 7 0)
    have htop : element [128] = 1 := by
      rw [element_singleton]
      unfold ofHigh ofBits
      simp [Finset.sum_range_succ, Nat.testBit]
    rw [hcross]
    by_cases hodd : (s0.getD 7 0).toNat % 2 = 1
    · have hone : s0.getD 7 0 &&& 0x01 = 1 := UInt8.toNat_inj.mp (hbit.trans hodd)
      have hxor : (toBE 8 (ofBE s1 >>> 1)).getD 0 0 ||| (128 : UInt8) =
          (toBE 8 (ofBE s1 >>> 1)).getD 0 0 ^^^ 128 := by
        apply UInt8.toNat_inj.mp
        rw [UInt8.toNat_or, UInt8.toNat_xor]
        exact hor _ hhead
      rw [hone, show (1 : UInt8) <<< 7 = 128 by decide, hxor,
        element_set_xor (by rw [← List.length_pos_iff, length_toBE]; decide), element_toBE hlow1,
        if_pos hodd, htop]
    · have hzero : s0.getD 7 0 &&& 0x01 = 0 := UInt8.toNat_inj.mp (hbit.trans (by simpa using hodd))
      rw [hzero, show (0 : UInt8) <<< 7 = 0 by decide, UInt8.or_zero, if_neg hodd, add_zero,
        ← element_toBE hlow1]
      congr 1
  have hsrc : element (s0 ++ s1) = ofHigh x 64 (ofBE s0) + x ^ 64 * ofHigh x 64 (ofBE s1) := by
    rw [element_append, h0]
    unfold element
    rw [h0, h1]
  unfold gcmGenTableRightshift
  rw [hslice0, hslice1, hget7, hget15]
  rw [element_append, hdst0, hdst1, hsrc, List.length_set, length_toBE]
  linear_combination -hshift0 - x ^ 64 * hshift1

theorem length_gcmGenTableRightshift (src : ByteString) :
    (gcmGenTableRightshift src).length = 16 := by
  unfold gcmGenTableRightshift
  simp

theorem shiftLoop_spec {k : Nat} {H : Table} {e : GF128} (hlen : (H.entry (2 ^ k)).length = 16)
    (he : element (H.entry (2 ^ k)) = e) :
    (∀ j, j ≤ k → ((shiftLoop k H).entry (2 ^ j)).length = 16 ∧
      element ((shiftLoop k H).entry (2 ^ j)) = x ^ (k - j) * e) ∧
    ∀ n, (∀ j, j < k → n ≠ 2 ^ j) → (shiftLoop k H).entry n = H.entry n := by
  induction k generalizing H e with
  | zero =>
    refine ⟨fun j hj => ?_, fun n _ => rfl⟩
    obtain rfl := Nat.le_zero.mp hj
    rw [Nat.sub_self, pow_zero x, one_mul]
    exact ⟨hlen, he⟩
  | succ k ih =>
    have hdouble : 2 ^ k * 2 = 2 ^ (k + 1) := (Nat.pow_succ 2 k).symm
    unfold shiftLoop
    rw [hdouble]
    obtain ⟨hlow, hframe⟩ := ih
      (H := H.set (2 ^ k) (gcmGenTableRightshift (H.entry (2 ^ (k + 1)))))
      (e := x * e) (by rw [Table.set_self, length_gcmGenTableRightshift])
      (by rw [Table.set_self, element_gcmGenTableRightshift hlen, he])
    constructor
    · intro j hj
      rcases Nat.lt_or_eq_of_le hj with hlt | rfl
      · obtain ⟨hl, hv⟩ := hlow j (by omega)
        refine ⟨hl, ?_⟩
        rw [hv, show k + 1 - j = k - j + 1 by omega, pow_succ, mul_assoc]
      have hne : 2 ^ (k + 1) ≠ 2 ^ k := Nat.ne_of_gt (Nat.pow_lt_pow_right (by decide) (by omega))
      rw [hframe _ (fun i hi => Nat.ne_of_gt (Nat.pow_lt_pow_right (by decide) (by omega))),
        Table.set_of_ne hne, Nat.sub_self, pow_zero x, one_mul]
      exact ⟨hlen, he⟩
    · intro n hn
      rw [hframe n fun j hj => hn j (by omega), Table.set_of_ne (hn k (by omega))]

theorem packLoop_spec (isBigEndian : Bool) (k : Nat) (H : Table) :
    (∀ j, j < k → (packLoop isBigEndian k H).entry (2 ^ j) = pack isBigEndian (H.entry (2 ^ j))) ∧
    ∀ n, (∀ j, j < k → n ≠ 2 ^ j) → (packLoop isBigEndian k H).entry n = H.entry n := by
  induction k generalizing H with
  | zero => exact ⟨fun j hj => absurd hj (Nat.not_lt_zero j), fun n _ => rfl⟩
  | succ k ih =>
    obtain ⟨hlow, hframe⟩ := ih (H.set (2 ^ k) (pack isBigEndian (H.entry (2 ^ k))))
    have hne : ∀ j, j < k → 2 ^ k ≠ 2 ^ j := fun j hj =>
      Nat.ne_of_gt (Nat.pow_lt_pow_right (by decide) hj)
    unfold packLoop
    constructor
    · intro j hj
      rcases Nat.lt_or_eq_of_le (Nat.lt_succ_iff.mp hj) with hlt | rfl
      · rw [hlow j hlt, Table.set_of_ne (hne j hlt).symm]
      · rw [hframe _ hne, Table.set_self]
    · intro n hn
      rw [hframe n fun j hj => hn j (by omega), Table.set_of_ne (hn k (by omega))]

theorem rowLoop_spec {i t : Nat} (ht : t < i) (H : Table) :
    (∀ j, 1 ≤ j → j ≤ t → (rowLoop i t H).entry (i + j) = xor (H.entry i) (H.entry j)) ∧
    ∀ n, (n ≤ i ∨ i + t < n) → (rowLoop i t H).entry n = H.entry n := by
  induction t with
  | zero => exact ⟨fun j h1 h2 => absurd h2 (by omega), fun n _ => rfl⟩
  | succ t ih =>
    obtain ⟨hrow, hframe⟩ := ih (by omega)
    unfold rowLoop
    constructor
    · intro j h1 h2
      rcases Nat.lt_or_eq_of_le h2 with hlt | rfl
      · rw [Table.set_of_ne (by omega), hrow j h1 (by omega)]
      · rw [Table.set_self, hframe i (Or.inl (Nat.le_refl i)), hframe (t + 1) (Or.inl (by omega))]
    · intro n hn
      rw [Table.set_of_ne (by omega), hframe n (by omega)]

structure Linear (val : ByteString → GF128) : Prop where
  zero : val (List.replicate 16 0) = 0
  xor : ∀ a b : ByteString, a.length = 16 → b.length = 16 → val (xor a b) = val a + val b

theorem xorLoop_spec {val : ByteString → GF128} (hval : Linear val) {m k : Nat} (hk : k < m)
    {H : Table} {e : GF128} (hzero : H.entry 0 = List.replicate 16 0)
    (hpow : ∀ j, j ≤ k →
      (H.entry (2 ^ j)).length = 16 ∧ val (H.entry (2 ^ j)) = x ^ (m - 1 - j) * e) :
    (∀ n, n < 2 ^ (k + 1) → ((xorLoop k H).entry n).length = 16 ∧
      val ((xorLoop k H).entry n) = ofHigh x m n * e) ∧
    ∀ n, 2 ^ (k + 1) ≤ n → (xorLoop k H).entry n = H.entry n := by
  induction k with
  | zero =>
    refine ⟨fun n hn => ?_, fun n _ => rfl⟩
    unfold xorLoop
    rcases Nat.lt_or_eq_of_le (Nat.lt_succ_iff.mp hn) with hlt | rfl
    · obtain rfl := Nat.lt_one_iff.mp hlt
      rw [hzero, hval.zero, ofHigh_zero, zero_mul]
      exact ⟨List.length_replicate, rfl⟩
    · obtain ⟨hl, hv⟩ := hpow 0 (Nat.le_refl 0)
      have hone := ofHigh_two_pow x hk
      refine ⟨hl, ?_⟩
      rw [show (1 : Nat) = 2 ^ 0 by rfl, hv, hone]
  | succ k ih =>
    obtain ⟨hlow, hframe⟩ := ih (by omega) fun j hj => hpow j (by omega)
    have hpos := Nat.two_pow_pos (k + 1)
    obtain ⟨hrow, hkeep⟩ := rowLoop_spec (i := 2 ^ (k + 1)) (t := 2 ^ (k + 1) - 1) (by omega)
      (xorLoop k H)
    have htop := hframe _ (Nat.le_refl (2 ^ (k + 1)))
    obtain ⟨hltop, hvtop⟩ := hpow (k + 1) (Nat.le_refl _)
    unfold xorLoop
    constructor
    · intro n hn
      rcases Nat.lt_trichotomy n (2 ^ (k + 1)) with hlt | rfl | hgt
      · rw [hkeep n (Or.inl (Nat.le_of_lt hlt))]
        exact hlow n hlt
      · rw [hkeep _ (Or.inl (Nat.le_refl _)), htop, hvtop, ofHigh_two_pow x hk]
        exact ⟨hltop, rfl⟩
      obtain ⟨j, rfl⟩ := Nat.exists_eq_add_of_lt hgt
      have hj : j + 1 < 2 ^ (k + 1) := by omega
      obtain ⟨hlj, hvj⟩ := hlow (j + 1) hj
      have hsum : 2 ^ (k + 1) + j + 1 = 2 ^ (k + 1) ^^^ (j + 1) := by
        have hor := Nat.two_pow_add_eq_or_of_lt hj 1
        rw [Nat.mul_one] at hor
        rw [Nat.add_assoc, hor]
        apply Nat.eq_of_testBit_eq
        intro i
        rw [Nat.testBit_or, Nat.testBit_xor, Nat.testBit_two_pow]
        by_cases hi : k + 1 = i
        · subst hi
          rw [Nat.testBit_lt_two_pow hj]
          simp
        · simp [hi]
      rw [Nat.add_assoc, hrow (j + 1) (by omega) (by omega), htop,
        hval.xor _ _ hltop hlj, hvtop, hvj, ← Nat.add_assoc, hsum, ofHigh_xor,
        ofHigh_two_pow x hk, add_mul, length_xor, hltop, hlj]
      exact ⟨rfl, rfl⟩
    · intro n hn
      rw [hkeep n (Or.inr (by omega)), hframe n (by omega)]

/-! ## Entries as words -/

theorem add_mul_xor_add_mul {a b : Nat} (ha : a < 256) (hb : b < 256) (r s : Nat) :
    (a + 256 * r) ^^^ (b + 256 * s) = (a ^^^ b) + 256 * (r ^^^ s) := by
  have hab : a ^^^ b < 2 ^ 8 := Nat.xor_lt_two_pow ha hb
  apply Nat.eq_of_testBit_eq
  intro i
  rw [Nat.testBit_xor, Nat.add_comm a, Nat.add_comm b, Nat.add_comm (a ^^^ b),
    show 256 = 2 ^ 8 by rfl, Nat.testBit_two_pow_mul_add _ ha, Nat.testBit_two_pow_mul_add _ hb,
    Nat.testBit_two_pow_mul_add _ hab]
  split
  · rw [Nat.testBit_xor]
  · rw [Nat.testBit_xor]

theorem ofLE_xor (h : as.length = bs.length) : ofLE (xor as bs) = ofLE as ^^^ ofLE bs := by
  induction as generalizing bs with
  | nil =>
    obtain rfl := List.eq_nil_of_length_eq_zero h.symm
    rfl
  | cons a as ih =>
    cases bs with
    | nil => cases h
    | cons b bs =>
      show (a ^^^ b).toNat + 256 * ofLE (xor as bs) = _
      rw [ih (by simpa using h), UInt8.toNat_xor, ofLE, ofLE,
        add_mul_xor_add_mul a.toNat_lt b.toNat_lt]

theorem ofHost_xor (isBigEndian : Bool) (h : as.length = bs.length) :
    ofHost isBigEndian (xor as bs) = ofHost isBigEndian as ^^^ ofHost isBigEndian bs := by
  have hreverse : (xor as bs).reverse = xor as.reverse bs.reverse := by
    exact List.reverse_zipWith h
  unfold ofHost
  split
  · unfold ofBE
    rw [hreverse, ofLE_xor (by simpa using h)]
  · exact ofLE_xor h

theorem slice_xor (as bs : ByteString) (off len : Nat) :
    slice (xor as bs) off len = xor (slice as off len) (slice bs off len) := by
  unfold slice Bytes.xor
  rw [List.drop_zipWith, List.take_zipWith]

theorem ofHost_lt (isBigEndian : Bool) (bs : ByteString) :
    ofHost isBigEndian bs < 2 ^ (8 * bs.length) := by
  rw [Nat.pow_mul]
  unfold ofHost
  split
  · exact ofBE_lt bs
  · exact ofLE_lt bs

noncomputable def Words.element (z : Words) : GF128 :=
  ofHigh x 64 z.w0.toNat + x ^ 64 * ofHigh x 64 z.w1.toNat

theorem Words.element_xor (z u : Words) : (z.xor u).element = z.element + u.element := by
  unfold Words.element Words.xor
  rw [BitVec.toNat_xor, BitVec.toNat_xor, ofHigh_xor, ofHigh_xor]
  ring

theorem entryWords_toNat (isBigEndian : Bool) (bs : ByteString) (off : Nat) :
    (BitVec.ofNat 64 (ofHost isBigEndian (slice bs off 8))).toNat =
      ofHost isBigEndian (slice bs off 8) := by
  rw [BitVec.toNat_ofNat]
  apply Nat.mod_eq_of_lt
  apply Nat.lt_of_lt_of_le (ofHost_lt isBigEndian _)
  apply Nat.pow_le_pow_right (by decide)
  rw [length_slice]
  omega

theorem linear_element : Linear element where
  zero := element_zero 16
  xor _ _ ha hb := element_xor (ha.trans hb.symm)

theorem linear_entryWords (isBigEndian : Bool) :
    Linear fun entry => (entryWords isBigEndian entry).element where
  zero := by
    have hzero : entryWords isBigEndian (List.replicate 16 0) = { w0 := 0, w1 := 0 } := by
      cases isBigEndian <;> rfl
    rw [hzero]
    unfold Words.element
    simp
  xor a b ha hb := by
    have hlen : ∀ off, (slice a off 8).length = (slice b off 8).length := fun off => by
      rw [length_slice, length_slice, ha, hb]
    unfold Words.element entryWords
    simp only [entryWords_toNat]
    rw [slice_xor, slice_xor, ofHost_xor _ (hlen 0), ofHost_xor _ (hlen 8), ofHigh_xor, ofHigh_xor]
    ring

theorem element_entryWords_pack (isBigEndian : Bool) {entry : ByteString}
    (h : entry.length = 16) :
    (entryWords isBigEndian (pack isBigEndian entry)).element = element entry := by
  obtain ⟨s0, s1, rfl, h0, h1⟩ : ∃ s0 s1, entry = s0 ++ s1 ∧ s0.length = 8 ∧ s1.length = 8 :=
    ⟨entry.take 8, entry.drop 8, (List.take_append_drop 8 entry).symm, by simp [h], by simp [h]⟩
  have hslice0 : slice (s0 ++ s1) 0 8 = s0 := slice_head h0
  have hslice1 : slice (s0 ++ s1) 8 8 = s1 := by
    rw [slice_tail (by omega), h0, slice_all h1]
  -- a word that is written big-endian and read by the host
  have hword : ∀ s : ByteString, s.length = 8 →
      ofHost isBigEndian (toBE 8 (ofHost isBigEndian s)) = ofBE s := by
    intro s hs
    unfold ofHost
    split
    · rw [← hs, toBE_ofBE]
    · unfold toBE ofBE
      rw [← hs, toLE_ofLE]
  have hpack0 : slice (pack isBigEndian (s0 ++ s1)) 0 8 = toBE 8 (ofHost isBigEndian s0) := by
    unfold pack
    rw [hslice0, slice_head (length_toBE 8 _)]
  have hpack1 : slice (pack isBigEndian (s0 ++ s1)) 8 8 = toBE 8 (ofHost isBigEndian s1) := by
    unfold pack
    rw [hslice1, slice_tail (Nat.le_of_eq (length_toBE 8 _)), length_toBE,
      slice_all (length_toBE 8 _)]
  unfold Words.element entryWords
  simp only [entryWords_toNat]
  rw [hpack0, hpack1, hword s0 h0, hword s1 h1, element_append, h0]
  unfold element
  rw [h0, h1]

/-! ## The table -/

/-- Entry `n` is the product of `n`, a field element of `bits` bits, and `H`. -/
structure IsTable (val : ByteString → GF128) (bits : Nat) (e : GF128) (H : Table) : Prop where
  length : ∀ n, n < 2 ^ bits → (H.entry n).length = 16
  value : ∀ n, n < 2 ^ bits → val (H.entry n) = ofHigh x bits n * e

theorem gcmGenTable_spec (isBigEndian largeTable : Bool)
    {encrypt : ByteString → Except Int ByteString} {h : ByteString}
    (hencrypt : encrypt (List.replicate 16 0) = .ok h) (hlen : h.length = 16) (H : Table) :
    ∃ T, gcmGenTable isBigEndian largeTable encrypt H = .ok T ∧
      if largeTable then IsTable element 8 (element h) T
      else IsTable (fun entry => (entryWords isBigEndian entry).element) 4 (element h) T := by
  -- the entries of the powers of two
  have hstart : ∀ k, ∃ H', shiftLoop k ((H.set (2 ^ k) h).set 0 (List.replicate 16 0)) = H' ∧
      (∀ j, j ≤ k → (H'.entry (2 ^ j)).length = 16 ∧
        element (H'.entry (2 ^ j)) = x ^ (k - j) * element h) ∧
      H'.entry 0 = List.replicate 16 0 := by
    intro k
    have hne : 2 ^ k ≠ 0 := Nat.ne_of_gt (Nat.two_pow_pos k)
    have hget : ((H.set (2 ^ k) h).set 0 (List.replicate 16 0)).entry (2 ^ k) = h := by
      rw [Table.set_of_ne hne, Table.set_self]
    obtain ⟨hpow, hframe⟩ := shiftLoop_spec (k := k)
      (H := (H.set (2 ^ k) h).set 0 (List.replicate 16 0))
      (e := element h) (by rw [hget, hlen]) (by rw [hget])
    refine ⟨_, rfl, hpow, ?_⟩
    rw [hframe 0 fun j _ => (Nat.ne_of_gt (Nat.two_pow_pos j)).symm, Table.set_self]
  obtain ⟨large, hlarge, hpowL, hzeroL⟩ := hstart 7
  obtain ⟨small, hsmall, hpowS, hzeroS⟩ := hstart 3
  unfold gcmGenTable
  rw [hencrypt]
  refine ⟨_, rfl, ?_⟩
  rw [hlarge, hsmall]
  by_cases hL : largeTable = true
  · rw [if_pos hL, if_pos hL]
    have htable := (xorLoop_spec linear_element (m := 8) (k := 7) (by decide) hzeroL hpowL).1
    exact ⟨fun n hn => (htable n hn).1, fun n hn => (htable n hn).2⟩
  rw [if_neg hL, if_neg hL]
  obtain ⟨hpack, hframe⟩ := packLoop_spec isBigEndian 4 small
  have hzero : (packLoop isBigEndian 4 small).entry 0 = List.replicate 16 0 := by
    rw [hframe 0 fun j _ => (Nat.ne_of_gt (Nat.two_pow_pos j)).symm, hzeroS]
  have htable := (xorLoop_spec (linear_entryWords isBigEndian) (m := 4) (k := 3) (by decide)
    hzero (e := element h) fun j hj => by
      rw [hpack j (by omega), element_entryWords_pack isBigEndian (hpowS j hj).1]
      refine ⟨?_, (hpowS j hj).2⟩
      unfold pack
      simp).1
  exact ⟨fun n hn => (htable n hn).1, fun n hn => (htable n hn).2⟩

/-! ## The two multiplications -/

theorem take_succ_getD {n : Nat} (h : n < bs.length) :
    bs.take (n + 1) = bs.take n ++ [bs.getD n 0] := by
  rw [List.take_succ_eq_append_getElem h, List.getD_eq_getElem _ _ h]

theorem element_smallShift (z : Words) : (smallShift z).element = x ^ 4 * z.element := by
  have hrem : (z.w1 &&& 0xf).toNat = z.w1.toNat % 2 ^ 4 := by
    rw [BitVec.toNat_and]
    exact Nat.and_two_pow_sub_one_eq_mod z.w1.toNat 4
  have hr : z.w1.toNat % 2 ^ 4 < 16 := Nat.mod_lt _ (by decide)
  have hentry : last4.getD (z.w1.toNat % 2 ^ 4) 0 < 2 ^ 16 := by
    have hall : ∀ r, r < 16 → last4.getD r 0 < 2 ^ 16 := by decide
    exact hall _ hr
  have hshift0 := ofHigh_shiftRight x 60 (k := 4) z.w0.isLt
  have hshift1 := ofHigh_shiftRight x 60 (k := 4) z.w1.isLt
  rw [show 60 + 4 = 64 by rfl] at hshift0 hshift1
  have hw0 : ofHigh x 64 (smallShift z).w0.toNat =
      ofHigh x 64 (z.w0.toNat >>> 4) + x ^ 128 * ofHigh x 4 (z.w1.toNat % 2 ^ 4) := by
    unfold smallShift
    simp only [hrem]
    have htop : (BitVec.ofNat 64 (last4.getD (z.w1.toNat % 2 ^ 4) 0) <<< 48).toNat =
        2 ^ 48 * last4.getD (z.w1.toNat % 2 ^ 4) 0 := by
      rw [BitVec.toNat_shiftLeft, BitVec.toNat_ofNat, Nat.shiftLeft_eq]
      omega
    have hmul := ofHigh_mul x 16 48 (last4.getD (z.w1.toNat % 2 ^ 4) 0)
    rw [show 16 + 48 = 64 by rfl, ofHigh_last4 hr] at hmul
    rw [BitVec.toNat_xor, BitVec.toNat_ushiftRight, htop, ofHigh_xor, hmul]
  have hw1 : ofHigh x 64 (smallShift z).w1.toNat =
      ofHigh x 4 (z.w0.toNat % 2 ^ 4) + ofHigh x 64 (z.w1.toNat >>> 4) := by
    have hlow : z.w1.toNat >>> 4 < 2 ^ 60 := by
      rw [Nat.shiftRight_eq_div_pow]
      omega
    have hvalue : (smallShift z).w1.toNat =
        2 ^ 60 * (z.w0.toNat % 2 ^ 4) + z.w1.toNat >>> 4 := by
      unfold smallShift
      rw [BitVec.toNat_or, BitVec.toNat_ushiftRight, BitVec.toNat_shiftLeft, Nat.shiftLeft_eq,
        show z.w0.toNat * 2 ^ 60 % 2 ^ 64 = 2 ^ 60 * (z.w0.toNat % 2 ^ 4) by omega]
      exact (Nat.two_pow_add_eq_or_of_lt hlow _).symm
    rw [hvalue, ofHigh_append x 4 _ hlow, ofHigh_of_lt x 4 hlow]
  unfold Words.element
  rw [hw0, hw1]
  linear_combination -hshift0 - x ^ 64 * hshift1

theorem element_halves (b : UInt8) :
    element [b] = ofHigh x 4 ((b >>> 4) &&& 0xf).toNat + x ^ 4 * ofHigh x 4 (b &&& 0xf).toNat := by
  have hb := b.toNat_lt
  have hlo : (b &&& 0xf).toNat = b.toNat % 2 ^ 4 := by
    rw [UInt8.toNat_and]
    exact Nat.and_two_pow_sub_one_eq_mod b.toNat 4
  have hhi : ((b >>> 4) &&& 0xf).toNat = b.toNat / 2 ^ 4 := by
    rw [UInt8.toNat_and, UInt8.toNat_shiftRight]
    show (b.toNat >>> 4) &&& 15 = _
    rw [Nat.shiftRight_eq_div_pow]
    exact (Nat.and_two_pow_sub_one_eq_mod _ 4).trans (Nat.mod_eq_of_lt (by omega))
  have hsplit := ofHigh_append x 4 (b.toNat / 2 ^ 4) (Nat.mod_lt b.toNat (Nat.two_pow_pos 4))
  rw [Nat.div_add_mod] at hsplit
  rw [element_singleton, hlo, hhi]
  exact hsplit

section Products

variable {isBigEndian : Bool} {e : GF128} {H : Table}

theorem element_nibbles (hH : IsTable (fun entry => (entryWords isBigEndian entry).element) 4 e H)
    (z : Words) (b : UInt8) :
    (((smallShift z).xor (entryWords isBigEndian (H.entry (b &&& 0xf).toNat)) |> smallShift).xor
        (entryWords isBigEndian (H.entry ((b >>> 4) &&& 0xf).toNat))).element =
      x ^ 8 * z.element + element [b] * e := by
  have hlt : ∀ c : UInt8, (c &&& 0xf).toNat < 2 ^ 4 := by
    intro c
    rw [UInt8.toNat_and]
    exact Nat.lt_of_le_of_lt Nat.and_le_right (by decide)
  have hlo := hH.value _ (hlt b)
  have hhi := hH.value _ (hlt (b >>> 4))
  rw [Words.element_xor, element_smallShift, Words.element_xor, element_smallShift, hlo, hhi,
    element_halves]
  ring

theorem element_smallLoop (hH : IsTable (fun entry => (entryWords isBigEndian entry).element) 4 e H)
    {x' : ByteString} {n : Nat} (hn : n ≤ x'.length) (z : Words) :
    (smallLoop isBigEndian x' H n z).element =
      x ^ (8 * n) * z.element + element (x'.take n) * e := by
  induction n generalizing z with
  | zero =>
    unfold smallLoop
    simp
  | succ n ih =>
    unfold smallLoop
    rw [ih (by omega), element_nibbles hH, take_succ_getD (by omega), element_append,
      List.length_take, Nat.min_eq_left (by omega)]
    ring

theorem element_gcmMultSmalltable
    (hH : IsTable (fun entry => (entryWords isBigEndian entry).element) 4 e H)
    {x' : ByteString} (hx : x'.length = 16) :
    element (gcmMultSmalltable isBigEndian x' H) = element x' * e := by
  have houtput : ∀ z : Words, element (toBE 8 z.w0.toNat ++ toBE 8 z.w1.toNat) = z.element := by
    intro z
    rw [element_append, length_toBE, element_toBE z.w0.isLt, element_toBE z.w1.isLt]
    rfl
  have hlt : ∀ c : UInt8, (c &&& 0xf).toNat < 2 ^ 4 := by
    intro c
    rw [UInt8.toNat_and]
    exact Nat.lt_of_le_of_lt Nat.and_le_right (by decide)
  have hlo := hH.value _ (hlt (x'.getD 15 0))
  have hhi := hH.value _ (hlt (x'.getD 15 0 >>> 4))
  have hall : x' = x'.take 15 ++ [x'.getD 15 0] := by
    rw [← take_succ_getD (by omega), List.take_of_length_le (by omega)]
  have hsplit : element x' = element (x'.take 15) + x ^ 120 * element [x'.getD 15 0] := by
    conv_lhs => rw [hall]
    rw [element_append, List.length_take, hx]
    rfl
  unfold gcmMultSmalltable
  rw [houtput, element_smallLoop hH (by omega), Words.element_xor, element_smallShift, hlo, hhi,
    hsplit, element_halves]
  ring

theorem shiftedWord (isBigEndian : Bool) {s : ByteString} (h : s.length = 8) :
    toHost isBigEndian 8 (if isBigEndian then ofHost isBigEndian s >>> 8
      else ofHost isBigEndian s <<< 8) = 0 :: s.take 7 := by
  cases isBigEndian with
  | true =>
    show toBE (1 + 7) (ofBE s >>> 8) = _
    have hlt := ofBE_lt s
    rw [h] at hlt
    have hall : toBE (7 + 1) (ofBE s) = s := by
      rw [show 7 + 1 = s.length by rw [h], toBE_ofBE]
    have htake : toBE 7 (ofBE s / 256 ^ 1) = s.take 7 := by
      rw [toBE_add] at hall
      conv_rhs => rw [← hall]
      rw [List.take_left' (length_toBE 7 _)]
    rw [Nat.shiftRight_eq_div_pow, toBE_add, show 2 ^ 8 = 256 ^ 1 by rfl, htake,
      Nat.div_div_eq_div_mul, ← Nat.pow_add, Nat.div_eq_of_lt hlt]
    rfl
  | false =>
    show toLE (7 + 1) (ofLE s <<< 8) = _
    have hall : toLE (7 + 1) (ofLE s) = s := by
      rw [show 7 + 1 = s.length by rw [h], toLE_ofLE]
    have htake : toLE 7 (ofLE s) = s.take 7 := by
      rw [toLE_add] at hall
      conv_rhs => rw [← hall]
      rw [List.take_left' (length_toLE 7 _)]
    rw [Nat.shiftLeft_eq, toLE, Nat.mul_div_cancel _ (by decide), htake]
    congr 1
    apply UInt8.toNat_inj.mp
    rw [UInt8.toNat_ofNat']
    exact Nat.mul_mod_left _ _

theorem largeRound_spec (isBigEndian : Bool) {z entry : ByteString} (hz : z.length = 16)
    (hentry : entry.length = 16) :
    (largeRound isBigEndian z entry).length = 16 ∧
      element (largeRound isBigEndian z entry) = x ^ 8 * (element z + element entry) := by
  rw [← element_xor (hz.trans hentry.symm)]
  unfold largeRound
  simp only
  have hlen : (xor z entry).length = 16 := by rw [length_xor, hz, hentry]; rfl
  generalize xor z entry = v at hlen
  -- the bytes that move: the last of each word
  obtain ⟨a0, a, c, b, r, rfl, ha, hb⟩ : ∃ (a0 : UInt8) (a : ByteString) (c : UInt8)
      (b : ByteString) (r : UInt8), v = a0 :: (a ++ [c]) ++ (b ++ [r]) ∧ a.length = 6 ∧
        b.length = 7 := by
    have hsplit : v = [v.getD 0 0] ++ slice v 1 6 ++ [v.getD 7 0] ++ slice v 8 7 ++
        [v.getD 15 0] := by
      match v, hlen with
      | [_, _, _, _, _, _, _, _, _, _, _, _, _, _, _, _], _ => rfl
    refine ⟨v.getD 0 0, slice v 1 6, v.getD 7 0, slice v 8 7, v.getD 15 0,
      hsplit.trans (by simp), ?_, ?_⟩
    · rw [length_slice, hlen]
      rfl
    · rw [length_slice, hlen]
      rfl
  have hlow : (a0 :: (a ++ [c])).length = 8 := by simp [ha]
  have hhigh : (b ++ [r]).length = 8 := by simp [hb]
  have hrem : (a0 :: (a ++ [c]) ++ (b ++ [r])).getD 15 0 = r := by
    rw [← List.append_assoc, List.getD_eq_getElem?_getD,
      List.getElem?_append_right (by simp [ha, hb])]
    simp [ha, hb]
  have hfirst : shiftWord isBigEndian (a0 :: (a ++ [c]) ++ (b ++ [r])) 1 =
      a0 :: (a ++ [c]) ++ (0 :: b) := by
    have hslice : slice (a0 :: (a ++ [c]) ++ (b ++ [r])) (8 * 1) 8 = b ++ [r] := by
      rw [slice_tail (Nat.le_of_eq hlow), hlow, slice_all hhigh]
    have hstore : storeAt (a0 :: (a ++ [c]) ++ (b ++ [r] ++ [])) (8 * 1) (0 :: b) =
        a0 :: (a ++ [c]) ++ (0 :: b ++ []) := storeAt_middle hlow (by simp [hb])
    unfold shiftWord
    simp only
    rw [hslice, shiftedWord isBigEndian hhigh, List.take_left' hb]
    rwa [List.append_nil, List.append_nil] at hstore
  have hget : (a0 :: (a ++ [c]) ++ (0 :: b)).getD 7 0 = c := by
    rw [List.getD_append _ _ _ _ (by simp [ha]), ← List.cons_append, List.getD_eq_getElem?_getD,
      List.getElem?_append_right (by simp [ha])]
    simp [ha]
  have hset : (a0 :: (a ++ [c]) ++ (0 :: b)).set 8 c = a0 :: (a ++ [c]) ++ (c :: b) := by
    rw [List.set_append_right _ _ (by rw [hlow]), hlow]
    rfl
  have hsecond : shiftWord isBigEndian (a0 :: (a ++ [c]) ++ (c :: b)) 0 =
      [0, a0] ++ (a ++ (c :: b)) := by
    have hslice : slice (a0 :: (a ++ [c]) ++ (c :: b)) (8 * 0) 8 = a0 :: (a ++ [c]) :=
      slice_head hlow
    have htake : (a0 :: (a ++ [c])).take 7 = a0 :: a := by
      rw [← List.cons_append, List.take_left' (by simp [ha])]
    have hstore : storeAt ([] ++ (a0 :: (a ++ [c]) ++ (c :: b))) (8 * 0) (0 :: a0 :: a) =
        [] ++ (0 :: a0 :: a ++ (c :: b)) := storeAt_middle rfl (by simp [ha])
    unfold shiftWord
    simp only
    rw [hslice, shiftedWord isBigEndian hlow, htake]
    exact hstore
  have hentry8 : last8.getD r.toNat 0 < 256 ^ 2 := by
    have hall : ∀ n, n < 256 → last8.getD n 0 < 256 ^ 2 := by decide +kernel
    exact hall _ r.toNat_lt
  have hword : (if isBigEndian then ofLE (toBE 2 (last8.getD r.toNat 0))
      else last8.getD r.toNat 0) = ofHost isBigEndian (last8Bytes r.toNat) := by
    cases isBigEndian with
    | true => rfl
    | false => exact (ofLE_toLE_of_lt hentry8).symm
  have hlast : (last8Bytes r.toNat).length = 2 := length_toLE 2 _
  have hhost : ∀ s : ByteString, s.length = 2 →
      toHost isBigEndian 2 (ofHost isBigEndian s) = s := by
    intro s hs
    unfold toHost ofHost
    split
    · rw [← hs, toBE_ofBE]
    · rw [← hs, toLE_ofLE]
  have hlenXor : (xor [0, a0] (last8Bytes r.toNat)).length = 2 := by
    rw [length_xor, hlast]
    rfl
  have hslice2 : slice ([0, a0] ++ (a ++ (c :: b))) 0 2 = [0, a0] := slice_head rfl
  have hstore2 : storeAt ([] ++ ([0, a0] ++ (a ++ (c :: b)))) 0 (xor [0, a0] (last8Bytes r.toNat)) =
      [] ++ (xor [0, a0] (last8Bytes r.toNat) ++ (a ++ (c :: b))) :=
    storeAt_middle rfl hlenXor.symm
  rw [hrem, hfirst, hget, hset, hsecond, hword, hslice2,
    ← ofHost_xor isBigEndian (by rw [hlast]; rfl), hhost _ hlenXor]
  simp only [List.nil_append] at hstore2
  rw [hstore2]
  constructor
  · rw [List.length_append, hlenXor]
    simp [ha, hb]
  have hzero : element [0, a0] = x ^ 8 * element [a0] := by
    have h := element_cons 0 [a0]
    have hnone : element [(0 : UInt8)] = 0 := element_zero 1
    rwa [hnone, zero_add] at h
  have hab : a0 :: (a ++ [c]) ++ (b ++ [r]) = [a0] ++ (a ++ (c :: b)) ++ [r] := by simp
  rw [hab, element_append, element_append ([a0] ++ _), element_append [a0],
    element_xor (by rw [hlast]; rfl), hlenXor, hzero, element_last8 r.toNat_lt,
    element_singleton r]
  have hlenAll : ([a0] ++ (a ++ (c :: b))).length = 15 := by simp [ha, hb]
  rw [hlenAll]
  simp only [List.length_singleton]
  ring

theorem element_largeLoop (hH : IsTable element 8 e H) {x' : ByteString} {n : Nat}
    (hn : n < x'.length) {z : ByteString} (hz : z.length = 16) :
    (largeLoop isBigEndian x' H n z).length = 16 ∧
      element (largeLoop isBigEndian x' H n z) =
        x ^ (8 * n) * element z + x ^ 8 * element ((x'.drop 1).take n) * e := by
  induction n generalizing z with
  | zero =>
    unfold largeLoop
    refine ⟨hz, ?_⟩
    simp
  | succ n ih =>
    have hbyte := (x'.getD (n + 1) 0).toNat_lt
    obtain ⟨hlen, hvalue⟩ := largeRound_spec isBigEndian hz (hH.length _ hbyte)
    obtain ⟨hl, hv⟩ := ih (by omega) hlen
    have hnext : (x'.drop 1).getD n 0 = x'.getD (n + 1) 0 := by
      rw [List.getD_eq_getElem?_getD, List.getElem?_drop, Nat.add_comm 1,
        ← List.getD_eq_getElem?_getD]
    unfold largeLoop
    refine ⟨hl, ?_⟩
    rw [hv, hvalue, hH.value _ hbyte, take_succ_getD (by rw [List.length_drop]; omega),
      element_append, List.length_take, List.length_drop, Nat.min_eq_left (by omega), hnext,
      element_singleton]
    ring

theorem element_gcmMultLargetable (hH : IsTable element 8 e H) {x' : ByteString}
    (hx : x'.length = 16) :
    (gcmMultLargetable isBigEndian x' H).length = 16 ∧
      element (gcmMultLargetable isBigEndian x' H) = element x' * e := by
  have hbyte := (x'.getD 0 0).toNat_lt
  have hstart : (List.replicate 16 (0 : UInt8)).length = 16 := List.length_replicate
  obtain ⟨hlen, hvalue⟩ :=
    @element_largeLoop isBigEndian e H hH x' 15 (by omega) (List.replicate 16 0) hstart
  have hentry := hH.length _ hbyte
  have hall : x' = [x'.getD 0 0] ++ x'.drop 1 := by
    cases x' with
    | nil => cases hx
    | cons b bs => rfl
  have hsplit : element x' = element [x'.getD 0 0] + x ^ 8 * element (x'.drop 1) := by
    conv_lhs => rw [hall]
    exact element_append _ _
  unfold gcmMultLargetable
  refine ⟨by rw [length_xor, hlen, hentry]; rfl, ?_⟩
  rw [element_xor (hlen.trans hentry.symm), hvalue, hH.value _ hbyte, element_zero,
    List.take_of_length_le (by rw [List.length_drop]; omega), hsplit, element_singleton]
  ring

end Products

theorem length_gcmMultSmalltable (isBigEndian : Bool) (x' : ByteString) (H : Table) :
    (gcmMultSmalltable isBigEndian x' H).length = 16 := by
  unfold gcmMultSmalltable
  simp

/-- **GHASH with tables.** Both multiplications are the one of GF(2^128), on a host of either byte
order, so they agree. -/
theorem ghash_tables_multiply (isBigEndian : Bool) {encrypt : ByteString → Except Int ByteString}
    {h x' : ByteString} (hencrypt : encrypt (List.replicate 16 0) = .ok h) (hh : h.length = 16)
    (hx : x'.length = 16) (H : Table) :
    ∃ small large, gcmGenTable isBigEndian false encrypt H = .ok small ∧
      gcmGenTable isBigEndian true encrypt H = .ok large ∧
      (gcmMultSmalltable isBigEndian x' small).length = 16 ∧
      element (gcmMultSmalltable isBigEndian x' small) = element x' * element h ∧
      (gcmMultLargetable isBigEndian x' large).length = 16 ∧
      element (gcmMultLargetable isBigEndian x' large) = element x' * element h ∧
      gcmMultSmalltable isBigEndian x' small = gcmMultLargetable isBigEndian x' large ∧
      ∀ y : ByteString, y.length = 16 → element y = element x' * element h →
        y = gcmMultSmalltable isBigEndian x' small := by
  obtain ⟨small, hsmall, hS⟩ := gcmGenTable_spec isBigEndian false hencrypt hh H
  obtain ⟨large, hlarge, hL⟩ := gcmGenTable_spec isBigEndian true hencrypt hh H
  have hlenS := length_gcmMultSmalltable isBigEndian x' small
  have hvalS : element (gcmMultSmalltable isBigEndian x' small) = element x' * element h :=
    element_gcmMultSmalltable hS hx
  have hboth : (gcmMultLargetable isBigEndian x' large).length = 16 ∧
      element (gcmMultLargetable isBigEndian x' large) = element x' * element h :=
    element_gcmMultLargetable hL hx
  refine ⟨small, large, hsmall, hlarge, hlenS, hvalS, hboth.1, hboth.2, ?_, ?_⟩
  · exact element_injective hlenS hboth.1 (hvalS.trans hboth.2.symm)
  · exact fun y hy hval => element_injective hy hlenS (hval.trans hvalS.symm)

theorem ghash_tables_multiply_ones :
    ∃ small large,
      gcmGenTable false false (fun _ => .ok (List.replicate 16 1)) ⟨fun _ => []⟩ = .ok small ∧
      gcmGenTable false true (fun _ => .ok (List.replicate 16 1)) ⟨fun _ => []⟩ = .ok large ∧
      gcmMultSmalltable false (List.replicate 16 7) small =
        gcmMultLargetable false (List.replicate 16 7) large :=
  (@ghash_tables_multiply false (fun _ => .ok (List.replicate 16 1)) (List.replicate 16 1)
    (List.replicate 16 7) rfl List.length_replicate List.length_replicate ⟨fun _ => []⟩).imp
    fun _ => fun ⟨large, hsmall, hlarge, _, _, _, _, hsame, _⟩ => ⟨large, hsmall, hlarge, hsame⟩

end TfPsaCrypto.Ghash
