import TfPsaCrypto.Library.Bytes

/-!
# Encoding methods of PKCS #1

MGF1, the check of EMSA-PSS, and the encodings EME-PKCS1-v1_5 and EME-OAEP with what their
decoders accept, over an arbitrary hash function.
-/

namespace Pkcs1

open Bytes

variable (hash : ByteString → ByteString)

/-! ## MGF1 -/

/-- `n` blocks of the mask from block `counter` on. -/
def mgf1Blocks (seed : ByteString) : Nat → Nat → ByteString
  | 0, _ => []
  | n + 1, counter => hash (seed ++ toBE 4 counter) ++ mgf1Blocks seed n (counter + 1)

/-- The mask of `maskLen` bytes. -/
def mgf1 (hLen : Nat) (seed : ByteString) (maskLen : Nat) : ByteString :=
  (mgf1Blocks hash seed ((maskLen + hLen - 1) / hLen) 0).take maskLen

theorem le_blocks {hLen : Nat} (hpos : 0 < hLen) (maskLen : Nat) :
    maskLen ≤ (maskLen + hLen - 1) / hLen * hLen := by
  have hdiv := Nat.div_add_mod' (maskLen + hLen - 1) hLen
  have hmod := Nat.mod_lt (maskLen + hLen - 1) hpos
  omega

section Length

variable {hash} {hLen : Nat} (hlen : ∀ x, (hash x).length = hLen)

include hlen

theorem length_mgf1Blocks (seed : ByteString) (n counter : Nat) :
    (mgf1Blocks hash seed n counter).length = n * hLen := by
  induction n generalizing counter with
  | zero => simp [mgf1Blocks]
  | succ n ih =>
    rw [mgf1Blocks, List.length_append, ih, hlen, Nat.succ_mul]
    exact Nat.add_comm _ _

theorem length_mgf1 (hpos : 0 < hLen) (seed : ByteString) (maskLen : Nat) :
    (mgf1 hash hLen seed maskLen).length = maskLen := by
  unfold mgf1
  rw [List.length_take, length_mgf1Blocks hlen]
  exact Nat.min_eq_left (le_blocks hpos maskLen)

end Length

/-! ## EMSA-PSS -/

/-- The `n` leftmost bits of the first byte set to 0. -/
def clearTop (n : Nat) : ByteString → ByteString
  | [] => []
  | b :: bs => (b &&& UInt8.ofNat (0xFF >>> n)) :: bs

@[simp] theorem length_clearTop (n : Nat) (bs : ByteString) :
    (clearTop n bs).length = bs.length := by
  cases bs <;> rfl

theorem clearTop_zero (bs : ByteString) : clearTop 0 bs = bs := by
  cases bs with
  | nil => rfl
  | cons b bs =>
    have hall : b &&& UInt8.ofNat (0xFF >>> 0) = b := by
      apply UInt8.toNat_inj.mp
      rw [UInt8.toNat_and]
      exact Nat.and_two_pow_sub_one_of_lt_two_pow (n := 8) b.toNat_lt
    rw [clearTop, hall]

theorem clearTop_xor (n : Nat) (x k : ByteString) :
    clearTop n (xor (clearTop n x) k) = clearTop n (xor x k) := by
  rcases x with _ | ⟨a, x⟩
  · rfl
  rcases k with _ | ⟨b, k⟩
  · rfl
  have hbyte : ∀ m : UInt8, (a &&& m ^^^ b) &&& m = (a ^^^ b) &&& m := by
    intro m
    apply UInt8.toBitVec_inj.mp
    ext i hi
    simp only [UInt8.toBitVec_and, UInt8.toBitVec_xor, BitVec.getElem_and, BitVec.getElem_xor]
    cases a.toBitVec[i] <;> cases b.toBitVec[i] <;> cases m.toBitVec[i] <;> rfl
  show ((a &&& _ ^^^ b) &&& _) :: _ = ((a ^^^ b) &&& _) :: _
  rw [hbyte]

theorem clearTop_of_le_one {n : Nat} (hn : n ≤ 7) {b : UInt8} (hb : b.toNat ≤ 1)
    (bs : ByteString) : clearTop n (b :: bs) = b :: bs := by
  have hall : ∀ n < 8, ∀ v < 2, UInt8.ofNat v &&& UInt8.ofNat (0xFF >>> n) = UInt8.ofNat v := by
    decide
  have hbyte := hall n (by omega) b.toNat (by omega)
  rw [UInt8.ofNat_toNat] at hbyte
  rw [clearTop, hbyte]

theorem headD_clearTop_lt (n : Nat) (hn : n ≤ 8) (bs : ByteString) :
    ((clearTop n bs).headD 0).toNat < 2 ^ (8 - n) := by
  rcases bs with _ | ⟨b, bs⟩
  · exact Nat.pow_pos (by decide)
  · have hall : ∀ n < 9, (UInt8.ofNat (0xFF >>> n)).toNat < 2 ^ (8 - n) := by decide
    show (b &&& UInt8.ofNat (0xFF >>> n)).toNat < _
    rw [UInt8.toNat_and]
    exact Nat.lt_of_le_of_lt Nat.and_le_right (hall n (by omega))

def pssHash (hLen : Nat) (em : ByteString) : ByteString := slice em (em.length - hLen - 1) hLen

/-- The data block of an encoded message of `emBits` bits. -/
def pssDb (hLen : Nat) (em : ByteString) (emBits : Nat) : ByteString :=
  clearTop (8 * em.length - emBits)
    (xor (em.take (em.length - hLen - 1)) (mgf1 hash hLen (pssHash hLen em) (em.length - hLen - 1)))

structure PssConsistent (hLen : Nat) (mHash em : ByteString) (emBits sLen : Nat) : Prop where
  length : em.length = (emBits + 7) / 8
  enough : hLen + sLen + 2 ≤ em.length
  trailer : em.getD (em.length - 1) 0 = 0xbc
  top : (em.headD 0).toNat < 2 ^ (8 - (8 * em.length - emBits))
  zeros : (pssDb hash hLen em emBits).take (em.length - hLen - sLen - 2) =
    List.replicate (em.length - hLen - sLen - 2) 0
  one : (pssDb hash hLen em emBits).getD (em.length - hLen - sLen - 2) 0 = 0x01
  hash : pssHash hLen em = hash (List.replicate 8 0 ++ mHash ++
    (pssDb hash hLen em emBits).drop (em.length - hLen - 1 - sLen))

theorem pssConsistent_iff {hLen : Nat} {mHash em : ByteString} {emBits sLen : Nat}
    (hlen : em.length = (emBits + 7) / 8) (henough : hLen + 2 ≤ em.length)
    (htrailer : em.getD (em.length - 1) 0 = 0xbc)
    (htop : (em.headD 0).toNat < 2 ^ (8 - (8 * em.length - emBits)))
    (hdb : (pssDb hash hLen em emBits).length = em.length - hLen - 1) :
    PssConsistent hash hLen mHash em emBits sLen ↔
      ∃ j salt, pssDb hash hLen em emBits = List.replicate j 0 ++ 0x01 :: salt ∧
        salt.length = sLen ∧ pssHash hLen em = hash (List.replicate 8 0 ++ mHash ++ salt) := by
  constructor
  · intro h
    have henough' := h.enough
    have hzeros := h.zeros
    have hone := h.one
    have hhash := h.hash
    generalize pssDb hash hLen em emBits = db at hdb hzeros hone hhash ⊢
    generalize hk : em.length - hLen - sLen - 2 = k at hzeros hone
    have hdrop : em.length - hLen - 1 - sLen = k + 1 := by omega
    rw [hdrop] at hhash
    refine ⟨k, db.drop (k + 1), ?_, ?_, hhash⟩
    · have hlt : k < db.length := by omega
      have hget : db[k] = 0x01 := by
        rw [List.getD_eq_getElem?_getD, List.getElem?_eq_getElem hlt] at hone
        exact hone
      rw [← hzeros, ← hget, ← List.drop_eq_getElem_cons hlt, List.take_append_drop]
    · rw [List.length_drop]
      omega
  · rintro ⟨j, salt, hsplit, rfl, hhash⟩
    have hall := congrArg List.length hsplit
    rw [hdb, List.length_append, List.length_replicate, List.length_cons] at hall
    have hj : em.length - hLen - salt.length - 2 = j := by omega
    have hdrop : em.length - hLen - 1 - salt.length = j + 1 := by omega
    have hzeros : (List.replicate j (0 : UInt8)).length = j := List.length_replicate
    constructor
    · exact hlen
    · omega
    · exact htrailer
    · exact htop
    · rw [hj, hsplit, List.take_left' hzeros]
    · rw [hj, hsplit, List.getD_eq_getElem?_getD, List.getElem?_append_right (by rw [hzeros]),
        hzeros, Nat.sub_self]
      rfl
    · rw [hdrop, hsplit, List.drop_append, List.drop_eq_nil_of_le (by rw [hzeros]; omega), hzeros]
      simpa using hhash

/-! ## EME-PKCS1-v1_5 -/

/-- The encoded message with padding `ps`. -/
def v15Encode (ps m : ByteString) : ByteString := 0x00 :: 0x02 :: (ps ++ 0x00 :: m)

def v15Decode (em : ByteString) : Option ByteString :=
  match (em.drop 2).dropWhile (· ≠ 0) with
  | [] => none
  | _ :: m =>
    if em.take 2 = [0x00, 0x02] ∧ 8 ≤ ((em.drop 2).takeWhile (· ≠ 0)).length then some m
    else none

theorem takeWhile_nonzero {ps m : ByteString} (hps : ∀ b ∈ ps, b ≠ 0) :
    (ps ++ 0x00 :: m).takeWhile (· ≠ 0) = ps ∧ (ps ++ 0x00 :: m).dropWhile (· ≠ 0) = 0x00 :: m := by
  induction ps with
  | nil => exact ⟨rfl, rfl⟩
  | cons b ps ih =>
    obtain ⟨hb, hrest⟩ := List.forall_mem_cons.mp hps
    obtain ⟨htake, hdrop⟩ := ih hrest
    rw [List.cons_append, List.takeWhile_cons_of_pos (by simpa using hb), htake,
      List.dropWhile_cons_of_pos (by simpa using hb), hdrop]
    exact ⟨rfl, rfl⟩

theorem v15Decode_iff {em m : ByteString} :
    v15Decode em = some m ↔ ∃ ps, (∀ b ∈ ps, b ≠ 0) ∧ 8 ≤ ps.length ∧ em = v15Encode ps m := by
  constructor
  · intro hdecode
    have hsplit := List.takeWhile_append_dropWhile (p := (· ≠ 0)) (l := em.drop 2)
    have hall := List.all_takeWhile (p := (· ≠ 0)) (l := em.drop 2)
    have hhead := List.head?_dropWhile_not (· ≠ 0) (em.drop 2)
    unfold v15Decode at hdecode
    rcases hdrop : (em.drop 2).dropWhile (· ≠ 0) with _ | ⟨z, rest⟩
    · rw [hdrop] at hdecode
      cases hdecode
    rw [hdrop] at hdecode hsplit hhead
    simp only at hdecode
    split at hdecode
    · next hfound =>
      cases hdecode
      obtain ⟨htake, hlong⟩ := hfound
      have hz : z = 0 := by simpa using hhead
      refine ⟨_, ?_, hlong, ?_⟩
      · intro b hb
        simpa using List.all_eq_true.mp hall b hb
      rw [hz] at hsplit
      unfold v15Encode
      rw [hsplit]
      conv_lhs => rw [← List.take_append_drop 2 em, htake]
      rfl
    · cases hdecode
  · rintro ⟨ps, hps, hlong, rfl⟩
    obtain ⟨htake, hdrop⟩ := takeWhile_nonzero (m := m) hps
    have hbody : (v15Encode ps m).drop 2 = ps ++ 0x00 :: m := rfl
    unfold v15Decode
    rw [hbody, hdrop, htake]
    exact if_pos ⟨rfl, hlong⟩

/-! ## EME-OAEP -/

def oaepDb (hLen : Nat) (lHash m : ByteString) (k : Nat) : ByteString :=
  lHash ++ (List.replicate (k - m.length - 2 * hLen - 2) 0 ++ 0x01 :: m)

/-- The data block and the seed under their masks, for a modulus of `k` bytes. -/
def oaepEncode (hLen : Nat) (lHash seed m : ByteString) (k : Nat) : ByteString :=
  let maskedDb := xor (oaepDb hLen lHash m k) (mgf1 hash hLen seed (k - hLen - 1))
  0x00 :: (xor seed (mgf1 hash hLen maskedDb hLen) ++ maskedDb)

/-- An encoded message of `k` bytes for a label with hash `lHash`. -/
structure OaepEncoded (hLen : Nat) (lHash em m : ByteString) (k : Nat) (seed : ByteString) :
    Prop where
  fits : m.length + 2 * hLen + 2 ≤ k
  length_seed : seed.length = hLen
  encoded : em = oaepEncode hash hLen lHash seed m k

def oaepSeedOf (hLen : Nat) (em : ByteString) : ByteString :=
  xor (slice em 1 hLen) (mgf1 hash hLen (em.drop (1 + hLen)) hLen)

def oaepDbOf (hLen : Nat) (em : ByteString) : ByteString :=
  xor (em.drop (1 + hLen)) (mgf1 hash hLen (oaepSeedOf hash hLen em) (em.length - hLen - 1))

section Oaep

variable {hash} {hLen : Nat}

theorem length_oaepDb {lHash m : ByteString} {k : Nat} (hlHash : lHash.length = hLen)
    (hfits : m.length + 2 * hLen + 2 ≤ k) : (oaepDb hLen lHash m k).length = k - hLen - 1 := by
  unfold oaepDb
  rw [List.length_append, List.length_append, List.length_replicate, List.length_cons, hlHash]
  omega

variable (hlen : ∀ x, (hash x).length = hLen) (hpos : 0 < hLen)

include hlen hpos

theorem oaepDbOf_encode {lHash m seed em : ByteString} {k : Nat} (hlHash : lHash.length = hLen)
    (h : OaepEncoded hash hLen lHash em m k seed) :
    em.length = k ∧ em.headD 0 = 0 ∧ oaepDbOf hash hLen em = oaepDb hLen lHash m k := by
  have hfits := h.fits
  have hdb := length_oaepDb hlHash hfits
  rw [h.encoded]
  unfold oaepEncode
  have hmasked : (xor (oaepDb hLen lHash m k) (mgf1 hash hLen seed (k - hLen - 1))).length =
      k - hLen - 1 := by
    rw [length_xor, length_mgf1 hlen hpos, hdb, Nat.min_self]
  have hunmask : xor (xor (oaepDb hLen lHash m k) (mgf1 hash hLen seed (k - hLen - 1)))
      (mgf1 hash hLen seed (k - hLen - 1)) = oaepDb hLen lHash m k :=
    xor_xor (by rw [length_mgf1 hlen hpos, hdb])
  generalize xor (oaepDb hLen lHash m k) (mgf1 hash hLen seed (k - hLen - 1)) = maskedDb
    at hmasked hunmask
  have hmaskedSeed : (xor seed (mgf1 hash hLen maskedDb hLen)).length = hLen := by
    rw [length_xor, length_mgf1 hlen hpos, h.length_seed, Nat.min_self]
  have htotal : (0x00 :: (xor seed (mgf1 hash hLen maskedDb hLen) ++ maskedDb)).length = k := by
    rw [List.length_cons, List.length_append, hmaskedSeed, hmasked]
    omega
  refine ⟨htotal, rfl, ?_⟩
  have hdrop : (0x00 :: (xor seed (mgf1 hash hLen maskedDb hLen) ++ maskedDb)).drop (1 + hLen) =
      maskedDb := by
    rw [Nat.add_comm, List.drop_succ_cons, List.drop_left' hmaskedSeed]
  have hseed : oaepSeedOf hash hLen
      (0x00 :: (xor seed (mgf1 hash hLen maskedDb hLen) ++ maskedDb)) = seed := by
    unfold oaepSeedOf slice
    rw [hdrop, List.drop_succ_cons, List.drop_zero, List.take_left' hmaskedSeed]
    exact xor_xor (by rw [length_mgf1 hlen hpos, h.length_seed])
  unfold oaepDbOf
  rw [hdrop, hseed, htotal]
  exact hunmask

theorem oaepEncoded_iff {lHash m em : ByteString} {k : Nat} (hlHash : lHash.length = hLen)
    (hk : 2 * hLen + 2 ≤ k) (hem : em.length = k) :
    (∃ seed, OaepEncoded hash hLen lHash em m k seed) ↔
      em.headD 0 = 0 ∧ ∃ j, oaepDbOf hash hLen em = lHash ++ (List.replicate j 0 ++ 0x01 :: m) := by
  constructor
  · rintro ⟨seed, h⟩
    obtain ⟨_, hhead, hdb⟩ := oaepDbOf_encode hlen hpos hlHash h
    exact ⟨hhead, _, hdb⟩
  rintro ⟨hhead, j, hdb⟩
  rcases em with _ | ⟨y, rest⟩
  · rw [List.length_nil] at hem
    omega
  have hy : y = 0 := hhead
  subst hy
  rw [List.length_cons] at hem
  have hdrop : (0x00 :: rest).drop (1 + hLen) = rest.drop hLen := by
    rw [Nat.add_comm, List.drop_succ_cons]
  have hslice : slice (0x00 :: rest) 1 hLen = rest.take hLen := by
    unfold slice
    rw [List.drop_succ_cons, List.drop_zero]
  have hmasked : (rest.drop hLen).length = k - hLen - 1 := by
    rw [List.length_drop]
    omega
  have htake : (rest.take hLen).length = hLen := by
    rw [List.length_take]
    omega
  have hseed : (oaepSeedOf hash hLen (0x00 :: rest)).length = hLen := by
    unfold oaepSeedOf
    rw [hslice, length_xor, length_mgf1 hlen hpos, htake, Nat.min_self]
  have hmask : xor (oaepSeedOf hash hLen (0x00 :: rest)) (mgf1 hash hLen (rest.drop hLen) hLen) =
      rest.take hLen := by
    unfold oaepSeedOf
    rw [hslice, hdrop]
    exact xor_xor (by rw [length_mgf1 hlen hpos, htake])
  have hlength : (oaepDbOf hash hLen (0x00 :: rest)).length = k - hLen - 1 := by
    unfold oaepDbOf
    rw [hdrop, length_xor, length_mgf1 hlen hpos, hmasked, List.length_cons, hem, Nat.min_self]
  have hunmask : xor (oaepDbOf hash hLen (0x00 :: rest))
      (mgf1 hash hLen (oaepSeedOf hash hLen (0x00 :: rest)) (k - hLen - 1)) = rest.drop hLen := by
    unfold oaepDbOf
    rw [hdrop, List.length_cons, hem]
    exact xor_xor (by rw [length_mgf1 hlen hpos, hmasked])
  rw [hdb] at hlength hunmask
  rw [List.length_append, List.length_append, List.length_replicate, List.length_cons,
    hlHash] at hlength
  have hj : j = k - m.length - 2 * hLen - 2 := by omega
  refine ⟨oaepSeedOf hash hLen (0x00 :: rest), by omega, hseed, ?_⟩
  unfold oaepEncode oaepDb
  simp only
  rw [← hj, hunmask, hmask, List.take_append_drop]

end Oaep

end Pkcs1
