import TfPsaCrypto.Builtin.RsaPss

/-!
# PSS signatures that verify

`mbedtls_rsa_rsassa_pss_verify_ext` on what the signing function produces.
-/

namespace TfPsaCrypto

open Bytes Pkcs1

variable {h : MdFunctions}

/-! ## The data block -/

def pssOffset (modBits : Nat) : Nat := if (modBits - 1) % 8 = 0 then 1 else 0

theorem pssSkipZeros_iff {db salt : ByteString} {b : UInt8} (hb : b ≠ 0) :
    pssSkipZeros db = b :: salt ↔ ∃ j, db = List.replicate j 0 ++ b :: salt := by
  constructor
  · intro hskip
    induction db with
    | nil => cases hskip
    | cons c db ih =>
      rcases db with _ | ⟨d, db⟩
      · have hone : [c] = b :: salt := hskip
        exact ⟨0, hone⟩
      unfold pssSkipZeros at hskip
      split at hskip
      · next hzero =>
        obtain ⟨j, hj⟩ := ih hskip
        refine ⟨j + 1, ?_⟩
        rw [hj, hzero, List.replicate_succ, List.cons_append]
      · exact ⟨0, hskip⟩
  · rintro ⟨j, rfl⟩
    induction j with
    | zero =>
      rcases salt with _ | ⟨c, salt⟩
      · rfl
      · show pssSkipZeros (b :: c :: salt) = _
        rw [pssSkipZeros, if_neg hb]
    | succ j ih =>
      rw [List.replicate_succ, List.cons_append]
      generalize hrest : List.replicate j 0 ++ b :: salt = rest at ih ⊢
      rcases rest with _ | ⟨c, rest⟩
      · exact absurd hrest (by simp)
      · rw [pssSkipZeros, if_pos rfl, ih]

theorem pssCheckDb_iff {mgf1HashId : MbedtlsMdType} (hsize : h.size mgf1HashId ≠ 0)
    {hash db digest : ByteString} {expectedSaltLen : Int} :
    pssCheckDb h mgf1HashId hash expectedSaltLen db digest = .ok () ↔
      ∃ j salt, db = List.replicate j 0 ++ 0x01 :: salt ∧
        (expectedSaltLen = mbedtlsRsaSaltLenAny ∨ (salt.length : Int) = expectedSaltLen % 2 ^ 64) ∧
        digest = h.md mgf1HashId (List.replicate 8 0 ++ hash ++ salt) := by
  unfold pssCheckDb hashMprime
  constructor
  · intro hok
    rcases hskip : pssSkipZeros db with _ | ⟨b, salt⟩
    · rw [hskip] at hok
      cases hok
    rw [hskip] at hok
    simp only [if_neg hsize] at hok
    split at hok
    · cases hok
    next hone =>
    rw [not_not] at hone
    subst hone
    split at hok
    · cases hok
    next hexpected =>
    split at hok
    · cases hok
    next hdigest =>
    obtain ⟨j, hj⟩ := (pssSkipZeros_iff (by decide)).mp hskip
    refine ⟨j, salt, hj, ?_, not_not.mp hdigest⟩
    by_contra hnone
    rw [not_or] at hnone
    exact hexpected hnone
  · rintro ⟨j, salt, hdb, hexpected, rfl⟩
    have hskip := (pssSkipZeros_iff (b := 0x01) (by decide)).mpr ⟨j, hdb⟩
    rw [hskip]
    simp only [if_neg hsize]
    rw [if_neg (by simp), if_neg (by tauto), if_neg (by simp)]

/-! ## The checks -/

section Sizes

variable {modBits olen : Nat}

theorem pssOffset_le (modBits : Nat) : pssOffset modBits ≤ 1 := by
  unfold pssOffset
  split <;> omega

theorem pssLength_eq (hpos : 0 < modBits) (holen : olen = (modBits + 7) / 8) :
    olen - pssOffset modBits = (modBits - 1 + 7) / 8 := by
  unfold pssOffset
  split <;> omega

end Sizes

theorem storeAt_head (b c : UInt8) (bs : ByteString) : storeAt (b :: bs) 0 [c] = c :: bs := rfl

theorem pss_unmasked {modBits olen n : Nat} {buf unmasked : ByteString} (hpos : 0 < modBits)
    (holen : olen = (modBits + 7) / 8) (hbuf : buf.length = olen) (hn : unmasked.length = n)
    (hn0 : 0 < n) :
    slice (storeAt (storeAt buf (pssOffset modBits) unmasked) 0
        [(storeAt buf (pssOffset modBits) unmasked).headD 0 &&&
          UInt8.ofNat (0xFF >>> ((olen - pssOffset modBits) * 8 - (modBits - 1)))])
      (pssOffset modBits) n =
      clearTop (8 * (olen - pssOffset modBits) - (modBits - 1)) unmasked := by
  obtain ⟨b, bs, rfl⟩ : ∃ b bs, buf = b :: bs := by
    rcases buf with _ | ⟨b, bs⟩
    · rw [List.length_nil] at hbuf
      omega
    · exact ⟨b, bs, rfl⟩
  unfold pssOffset
  split
  · next hmod =>
    have hbits : 8 * (olen - 1) - (modBits - 1) = 0 := by omega
    have hstore : storeAt (b :: bs) 1 unmasked =
        b :: (unmasked ++ (b :: bs).drop (1 + unmasked.length)) := rfl
    rw [hstore, storeAt_head, hbits, clearTop_zero]
    show (unmasked ++ _).take n = unmasked
    rw [List.take_left' hn]
  · rcases unmasked with _ | ⟨u, us⟩
    · rw [List.length_nil] at hn
      omega
    have hstore : storeAt (b :: bs) 0 (u :: us) =
        u :: (us ++ (b :: bs).drop (0 + (u :: us).length)) := rfl
    rw [hstore, storeAt_head, List.headD_cons, Nat.mul_comm, clearTop]
    show (_ :: (us ++ _)).take n = _
    rw [← List.cons_append, List.take_left']
    rw [← hn, List.length_cons, List.length_cons]

theorem pssCheck_eq {mdAlg mgf1HashId : MbedtlsMdType} {hash buf : ByteString}
    {expectedSaltLen : Int} {modBits olen : Nat} (hpos : 0 < modBits)
    (holen : olen = (modBits + 7) / 8) (hmax : olen ≤ rsaMpiMaxSize) (hbuf : buf.length = olen)
    (htrailer : buf.getD (olen - 1) 0 = 0xBC)
    (hmd : ¬ (mdAlg ≠ .none ∧ (h.size mdAlg = 0 ∨ hash.length ≠ h.size mdAlg)))
    (hsize : h.size mgf1HashId ≠ 0)
    (htop : (buf.headD 0).toNat >>> (8 + (modBits - 1) - olen * 8) = 0)
    (hroom : h.size mgf1HashId + 2 ≤ olen - pssOffset modBits) :
    pssCheck h mdAlg mgf1HashId hash expectedSaltLen modBits buf olen =
      pssCheckDb h mgf1HashId hash expectedSaltLen
        (pssDb (h.md mgf1HashId) (h.size mgf1HashId) (buf.drop (pssOffset modBits)) (modBits - 1))
        (pssHash (h.size mgf1HashId) (buf.drop (pssOffset modBits))) := by
  have hemlen : (buf.drop (pssOffset modBits)).length = olen - pssOffset modBits := by
    rw [List.length_drop, hbuf]
  have hlen : (slice buf (pssOffset modBits)
      (olen - pssOffset modBits - h.size mgf1HashId - 1)).length =
        olen - pssOffset modBits - h.size mgf1HashId - 1 := by
    rw [length_slice, hbuf]
    omega
  have hstart : pssOffset modBits + (olen - pssOffset modBits) - h.size mgf1HashId - 1 =
      pssOffset modBits + (olen - pssOffset modBits - h.size mgf1HashId - 1) := by omega
  have hhash : slice buf (pssOffset modBits + (olen - pssOffset modBits - h.size mgf1HashId - 1))
      (h.size mgf1HashId) = pssHash (h.size mgf1HashId) (buf.drop (pssOffset modBits)) := by
    unfold pssHash slice
    rw [List.drop_drop, hemlen]
  unfold pssCheck
  rw [if_neg (not_not.mpr htrailer), if_neg hmd]
  rw [if_neg hsize, if_neg (not_not.mpr htop)]
  have hoff : (if (modBits - 1) % 8 = 0 then 1 else 0) = pssOffset modBits := rfl
  simp only [hoff]
  have hshort : (slice buf (pssOffset modBits)
      (olen - pssOffset modBits - h.size mgf1HashId - 1)).length ≤ 4096 := by
    rw [hlen]
    unfold rsaMpiMaxSize at hmax
    omega
  rw [if_neg (Nat.not_lt.mpr hroom), mgfMask_eq hsize hshort]
  simp only
  rw [hstart, Nat.add_sub_cancel_left, hhash]
  have hmasklen : (mgf1 (h.md mgf1HashId) (h.size mgf1HashId)
      (pssHash (h.size mgf1HashId) (buf.drop (pssOffset modBits)))
      (olen - pssOffset modBits - h.size mgf1HashId - 1)).length =
        olen - pssOffset modBits - h.size mgf1HashId - 1 :=
    length_mgf1 (MdFunctions.length_md_eq hsize) (by omega) _ _
  have hunmasked := @pss_unmasked _ _ (olen - pssOffset modBits - h.size mgf1HashId - 1) buf
    (Bytes.xor (slice buf (pssOffset modBits)
        (olen - pssOffset modBits - h.size mgf1HashId - 1))
      (mgf1 (h.md mgf1HashId) (h.size mgf1HashId)
        (pssHash (h.size mgf1HashId) (buf.drop (pssOffset modBits)))
        (olen - pssOffset modBits - h.size mgf1HashId - 1)))
    hpos holen hbuf (by rw [length_xor, hlen, hmasklen, Nat.min_self]) (by omega)
  rw [hlen, hunmasked]
  congr 1
  unfold pssDb
  rw [hemlen]
  rfl

theorem pss_top_iff {modBits olen : Nat} {buf : ByteString} (hpos : 0 < modBits)
    (holen : olen = (modBits + 7) / 8) (hbuf : buf.length = olen) :
    (buf.headD 0).toNat >>> (8 + (modBits - 1) - olen * 8) = 0 ↔
      buf.take (pssOffset modBits) = List.replicate (pssOffset modBits) 0 ∧
      ((buf.drop (pssOffset modBits)).headD 0).toNat <
        2 ^ (8 - (8 * (olen - pssOffset modBits) - (modBits - 1))) := by
  obtain ⟨b, bs, rfl⟩ : ∃ b bs, buf = b :: bs := by
    rcases buf with _ | ⟨b, bs⟩
    · rw [List.length_nil] at hbuf
      omega
    · exact ⟨b, bs, rfl⟩
  unfold pssOffset
  split
  · next hmod =>
    have hshift : 8 + (modBits - 1) - olen * 8 = 0 := by omega
    have hbits : 8 * (olen - 1) - (modBits - 1) = 0 := by omega
    rw [hshift, hbits]
    constructor
    · intro hzero
      have hb : b = 0 := UInt8.toNat_inj.mp hzero
      subst hb
      exact ⟨rfl, UInt8.toNat_lt _⟩
    · rintro ⟨htake, _⟩
      obtain ⟨rfl, _⟩ := List.cons.inj htake
      rfl
  · next hmod =>
    have hshift : 8 + (modBits - 1) - olen * 8 = 8 - (8 * (olen - 0) - (modBits - 1)) := by omega
    rw [hshift, Nat.shiftRight_eq_div_pow, Nat.div_eq_zero_iff_lt (Nat.pow_pos (by decide))]
    simp

theorem pssCheck_iff {mdAlg mgf1HashId : MbedtlsMdType} {hash buf : ByteString}
    {expectedSaltLen : Int} {modBits olen : Nat} (hpos : 0 < modBits)
    (holen : olen = (modBits + 7) / 8) (hmax : olen ≤ rsaMpiMaxSize) (hbuf : buf.length = olen) :
    pssCheck h mdAlg mgf1HashId hash expectedSaltLen modBits buf olen = .ok () ↔
      ¬ (mdAlg ≠ .none ∧ (h.size mdAlg = 0 ∨ hash.length ≠ h.size mdAlg)) ∧
      h.size mgf1HashId ≠ 0 ∧ buf.take (pssOffset modBits) = List.replicate (pssOffset modBits) 0 ∧
      ∃ sLen : Nat, (expectedSaltLen = mbedtlsRsaSaltLenAny ∨
          (sLen : Int) = expectedSaltLen % 2 ^ 64) ∧
        PssConsistent (h.md mgf1HashId) (h.size mgf1HashId) hash (buf.drop (pssOffset modBits))
          (modBits - 1) sLen := by
  have hemlen : (buf.drop (pssOffset modBits)).length = olen - pssOffset modBits := by
    rw [List.length_drop, hbuf]
  have hlast : 2 ≤ olen - pssOffset modBits →
      (buf.drop (pssOffset modBits)).getD (olen - pssOffset modBits - 1) 0 =
        buf.getD (olen - 1) 0 := by
    intro htwo
    rw [List.getD_eq_getElem?_getD, List.getElem?_drop, List.getD_eq_getElem?_getD]
    congr 2
    omega
  have hconsistent : h.size mgf1HashId ≠ 0 → buf.getD (olen - 1) 0 = 0xBC →
      ((buf.drop (pssOffset modBits)).headD 0).toNat <
        2 ^ (8 - (8 * (olen - pssOffset modBits) - (modBits - 1))) →
      h.size mgf1HashId + 2 ≤ olen - pssOffset modBits → ∀ sLen,
      (PssConsistent (h.md mgf1HashId) (h.size mgf1HashId) hash (buf.drop (pssOffset modBits))
          (modBits - 1) sLen ↔
        ∃ j salt, pssDb (h.md mgf1HashId) (h.size mgf1HashId) (buf.drop (pssOffset modBits))
            (modBits - 1) = List.replicate j 0 ++ 0x01 :: salt ∧ salt.length = sLen ∧
          pssHash (h.size mgf1HashId) (buf.drop (pssOffset modBits)) =
            h.md mgf1HashId (List.replicate 8 0 ++ hash ++ salt)) := by
    intro hsize htrailer htop hroom sLen
    apply pssConsistent_iff
    · rw [hemlen]
      exact pssLength_eq hpos holen
    · rw [hemlen]
      exact hroom
    · rw [hemlen, hlast (by omega)]
      exact htrailer
    · rw [hemlen]
      exact htop
    · unfold pssDb
      rw [length_clearTop, length_xor, length_mgf1 (MdFunctions.length_md_eq hsize) (by omega),
        List.length_take, hemlen]
      omega
  constructor
  · intro hok
    have hchecks := hok
    unfold pssCheck at hchecks
    split at hchecks
    · cases hchecks
    next htrailer =>
    rw [not_not] at htrailer
    split at hchecks
    · cases hchecks
    next hmd =>
    simp only at hchecks
    split at hchecks
    · cases hchecks
    next hsize =>
    split at hchecks
    · cases hchecks
    next htop =>
    rw [not_not] at htop
    have hoff : (if (modBits - 1) % 8 = 0 then 1 else 0) = pssOffset modBits := rfl
    rw [hoff] at hchecks
    split at hchecks
    · cases hchecks
    next hroom =>
    have hroom' : h.size mgf1HashId + 2 ≤ olen - pssOffset modBits := Nat.not_lt.mp hroom
    rw [pssCheck_eq hpos holen hmax hbuf htrailer hmd hsize htop hroom',
      pssCheckDb_iff hsize] at hok
    obtain ⟨hlead, htop'⟩ := (pss_top_iff hpos holen hbuf).mp htop
    obtain ⟨j, salt, hdb, hexpected, hdigest⟩ := hok
    exact ⟨hmd, hsize, hlead, salt.length, hexpected,
      (hconsistent hsize htrailer htop' hroom' _).mpr ⟨j, salt, hdb, rfl, hdigest⟩⟩
  · rintro ⟨hmd, hsize, hlead, sLen, hexpected, hpss⟩
    have hroom := hpss.enough
    have htrailer := hpss.trailer
    have htop := hpss.top
    rw [hemlen] at hroom htrailer htop
    rw [hlast (by omega)] at htrailer
    have hroom' : h.size mgf1HashId + 2 ≤ olen - pssOffset modBits := by omega
    obtain ⟨j, salt, hdb, rfl, hdigest⟩ := (hconsistent hsize htrailer htop hroom' _).mp hpss
    rw [pssCheck_eq hpos holen hmax hbuf htrailer hmd hsize
      ((pss_top_iff hpos holen hbuf).mpr ⟨hlead, htop⟩) hroom', pssCheckDb_iff hsize]
    exact ⟨j, salt, hdb, hexpected, hdigest⟩

/-! ## Encoding -/

def pssBlock (olen hlen : Nat) (salt : ByteString) : ByteString :=
  List.replicate (olen - hlen - salt.length - 2) 0 ++ 0x01 :: salt

def pssMessage (h : MdFunctions) (hashId : MbedtlsMdType) (modBits olen : Nat)
    (hash salt : ByteString) : ByteString :=
  let digest := h.md hashId (List.replicate 8 0 ++ hash ++ salt)
  let db := (pssBlock olen (h.size hashId) salt).drop (pssOffset modBits)
  clearTop (8 * (olen - pssOffset modBits) - (modBits - 1))
      (Bytes.xor db (mgf1 (h.md hashId) (h.size hashId) digest db.length)) ++
    (digest ++ [0xBC])

theorem length_pssBlock {olen hlen : Nat} {salt : ByteString}
    (hroom : hlen + salt.length + 2 ≤ olen) :
    (pssBlock olen hlen salt).length = olen - hlen - 1 := by
  unfold pssBlock
  rw [List.length_append, List.length_replicate, List.length_cons]
  omega

theorem pssEncode_eq {hashId : MbedtlsMdType} (hsize : h.size hashId ≠ 0) {modBits olen : Nat}
    (hpos : 0 < modBits) (holen : olen = (modBits + 7) / 8) (hmax : olen ≤ rsaMpiMaxSize)
    {hash salt : ByteString} (hroom : h.size hashId + salt.length + 2 ≤ olen) :
    pssEncode h hashId modBits olen hash salt =
      .ok (List.replicate (pssOffset modBits) 0 ++ pssMessage h hashId modBits olen hash salt) := by
  have hdigest := MdFunctions.length_md_eq hsize (List.replicate 8 0 ++ hash ++ salt)
  have hblock := length_pssBlock hroom
  have hoffset := pssOffset_le modBits
  have hoff : (if (modBits - 1) % 8 = 0 then 1 else 0) = pssOffset modBits := rfl
  unfold pssEncode pssMessage hashMprime
  generalize h.md hashId (List.replicate 8 0 ++ hash ++ salt) = digest at hdigest ⊢
  simp only [if_neg hsize, hoff]
  -- the buffer before the mask is applied
  have hfirst : storeAt (storeAt (storeAt (List.replicate olen 0)
        (olen - h.size hashId - salt.length - 2) [0x01])
        (olen - h.size hashId - salt.length - 2 + 1) salt)
        (olen - h.size hashId - salt.length - 2 + 1 + salt.length) digest =
      pssBlock olen (h.size hashId) salt ++ (digest ++ [0]) := by
    have hzeros : List.replicate olen (0 : UInt8) =
        List.replicate (olen - h.size hashId - salt.length - 2) 0 ++ ([0] ++
          (List.replicate salt.length 0 ++ (List.replicate (h.size hashId) 0 ++ [0]))) := by
      have hone : [(0 : UInt8)] = List.replicate 1 0 := rfl
      rw [hone, List.replicate_append_replicate, List.replicate_append_replicate,
        List.replicate_append_replicate, List.replicate_append_replicate]
      congr 1
      omega
    unfold pssBlock
    generalize olen - h.size hashId - salt.length - 2 = o at hzeros ⊢
    have hone : storeAt (List.replicate o 0 ++ ([0] ++
        (List.replicate salt.length 0 ++ (List.replicate (h.size hashId) 0 ++ [0])))) o [0x01] =
        List.replicate o 0 ++ ([0x01] ++
          (List.replicate salt.length 0 ++ (List.replicate (h.size hashId) 0 ++ [0]))) :=
      storeAt_middle List.length_replicate rfl
    have hsalt : storeAt ((List.replicate o 0 ++ [0x01]) ++ (List.replicate salt.length 0 ++
        (List.replicate (h.size hashId) 0 ++ [0]))) (o + 1) salt =
        (List.replicate o 0 ++ [0x01]) ++ (salt ++ (List.replicate (h.size hashId) 0 ++ [0])) :=
      storeAt_middle (by simp) List.length_replicate
    have hhash : storeAt ((List.replicate o 0 ++ [0x01] ++ salt) ++
        (List.replicate (h.size hashId) 0 ++ [0])) (o + 1 + salt.length) digest =
        (List.replicate o 0 ++ [0x01] ++ salt) ++ (digest ++ [0]) :=
      storeAt_middle (by simp; omega) (by rw [List.length_replicate, hdigest])
    rw [hzeros, hone, ← List.append_assoc, hsalt, ← List.append_assoc, hhash]
    simp
  have hstart : olen - h.size hashId - salt.length - 2 + 1 + salt.length + h.size hashId =
      olen - 1 := by omega
  rw [hfirst, hstart]
  obtain ⟨lead, db, hsplit, hlead, hdb⟩ : ∃ lead db, pssBlock olen (h.size hashId) salt =
      lead ++ db ∧ lead.length = pssOffset modBits ∧
        (pssBlock olen (h.size hashId) salt).drop (pssOffset modBits) = db := by
    refine ⟨_, _, (List.take_append_drop (pssOffset modBits) _).symm, ?_, rfl⟩
    rw [List.length_take, hblock]
    omega
  have hdblen : db.length = olen - h.size hashId - 1 - pssOffset modBits := by
    rw [← hdb, List.length_drop, hblock]
  rw [hdb, hsplit]
  have hslice : slice (lead ++ db ++ (digest ++ [0])) (pssOffset modBits)
      (olen - h.size hashId - 1 - pssOffset modBits) = db := by
    unfold slice
    rw [List.append_assoc, List.drop_left' hlead, List.take_left' hdblen]
  have hshort : db.length ≤ 4096 := by
    unfold rsaMpiMaxSize at hmax
    omega
  rw [hslice, mgfMask_eq hsize hshort]
  simp only
  have hmasklen : (mgf1 (h.md hashId) (h.size hashId) digest db.length).length = db.length :=
    length_mgf1 (MdFunctions.length_md_eq hsize) (by omega) _ _
  generalize mgf1 (h.md hashId) (h.size hashId) digest db.length = mask at hmasklen ⊢
  have hxor : (Bytes.xor db mask).length = db.length := by
    rw [length_xor, hmasklen, Nat.min_self]
  have hmasked : storeAt (lead ++ (db ++ (digest ++ [0]))) (pssOffset modBits)
      (Bytes.xor db mask) = lead ++ (Bytes.xor db mask ++ (digest ++ [0])) :=
    storeAt_middle hlead hxor.symm
  have hcleared : storeAt (lead ++ (Bytes.xor db mask ++ (digest ++ [0]))) 0
      [(lead ++ (Bytes.xor db mask ++ (digest ++ [0]))).headD 0 &&&
        UInt8.ofNat (0xFF >>> (olen * 8 - (modBits - 1)))] =
      List.replicate (pssOffset modBits) 0 ++
        (clearTop (8 * (olen - pssOffset modBits) - (modBits - 1)) (Bytes.xor db mask) ++
          (digest ++ [0])) := by
    unfold pssOffset at hlead hdblen ⊢
    split
    · next hmod =>
      rw [if_pos hmod] at hlead
      obtain ⟨b, rfl⟩ := List.length_eq_one_iff.mp hlead
      have hall : olen * 8 - (modBits - 1) = 8 := by omega
      have hnone : 8 * (olen - 1) - (modBits - 1) = 0 := by omega
      have hzero : b &&& UInt8.ofNat (0xFF >>> 8) = 0 := UInt8.and_zero
      rw [hall, hnone, clearTop_zero, List.singleton_append, storeAt_head, List.headD_cons, hzero]
      rfl
    · next hmod =>
      rw [if_neg hmod] at hlead hdblen
      rw [List.length_eq_zero_iff.mp hlead, List.nil_append, List.replicate_zero, List.nil_append,
        Nat.sub_zero, Nat.mul_comm]
      rcases hx : Bytes.xor db mask with _ | ⟨b, bs⟩
      · rw [hx, List.length_nil] at hxor
        omega
      · rw [List.cons_append, storeAt_head, List.headD_cons]
        rfl
  rw [List.append_assoc, hmasked, hcleared]
  have hlast : storeAt (List.replicate (pssOffset modBits) 0 ++
        (clearTop (8 * (olen - pssOffset modBits) - (modBits - 1)) (Bytes.xor db mask) ++ digest) ++
          ([0] ++ [])) (olen - 1) [0xBC] =
      List.replicate (pssOffset modBits) 0 ++
        (clearTop (8 * (olen - pssOffset modBits) - (modBits - 1)) (Bytes.xor db mask) ++ digest) ++
          ([0xBC] ++ []) := by
    refine storeAt_middle ?_ rfl
    simp only [List.length_append, List.length_replicate, length_clearTop, hxor, hdblen, hdigest]
    omega
  simp only [List.append_nil, List.append_assoc] at hlast
  rw [hlast]

section Message

variable {hashId : MbedtlsMdType} {modBits olen : Nat} {hash salt : ByteString}

theorem length_pssDrop (hroom : h.size hashId + salt.length + 2 ≤ olen) :
    ((pssBlock olen (h.size hashId) salt).drop (pssOffset modBits)).length =
      olen - pssOffset modBits - h.size hashId - 1 := by
  rw [List.length_drop, length_pssBlock hroom]
  omega

theorem length_pssCleared (hsize : h.size hashId ≠ 0)
    (hroom : h.size hashId + salt.length + 2 ≤ olen) (digest : ByteString) :
    (clearTop (8 * (olen - pssOffset modBits) - (modBits - 1))
      (Bytes.xor ((pssBlock olen (h.size hashId) salt).drop (pssOffset modBits))
        (mgf1 (h.md hashId) (h.size hashId) digest
          ((pssBlock olen (h.size hashId) salt).drop (pssOffset modBits)).length))).length =
      olen - pssOffset modBits - h.size hashId - 1 := by
  rw [length_clearTop, length_xor, length_mgf1 (MdFunctions.length_md_eq hsize) (by omega),
    Nat.min_self, length_pssDrop hroom]

theorem length_pssMessage (hsize : h.size hashId ≠ 0)
    (hroom : h.size hashId + salt.length + 2 ≤ olen) :
    (pssMessage h hashId modBits olen hash salt).length = olen - pssOffset modBits := by
  have hoffset := pssOffset_le modBits
  unfold pssMessage
  rw [List.length_append, length_pssCleared hsize hroom, List.length_append,
    MdFunctions.length_md_eq hsize, List.length_singleton]
  omega

theorem pssHash_pssMessage (hsize : h.size hashId ≠ 0)
    (hroom : h.size hashId + salt.length + 2 ≤ olen) :
    pssHash (h.size hashId) (pssMessage h hashId modBits olen hash salt) =
      h.md hashId (List.replicate 8 0 ++ hash ++ salt) := by
  unfold pssHash slice
  rw [length_pssMessage hsize hroom]
  unfold pssMessage
  rw [List.drop_left' (length_pssCleared hsize hroom _),
    List.take_left' (MdFunctions.length_md_eq hsize _)]

theorem pssDb_pssMessage (hsize : h.size hashId ≠ 0)
    (hroom : h.size hashId + salt.length + 2 ≤ olen) :
    pssDb (h.md hashId) (h.size hashId) (pssMessage h hashId modBits olen hash salt)
        (modBits - 1) =
      clearTop (8 * (olen - pssOffset modBits) - (modBits - 1))
        ((pssBlock olen (h.size hashId) salt).drop (pssOffset modBits)) := by
  unfold pssDb
  rw [pssHash_pssMessage hsize hroom, length_pssMessage hsize hroom]
  unfold pssMessage
  rw [List.take_left' (length_pssCleared hsize hroom _), ← length_pssDrop hroom, clearTop_xor,
    xor_xor]
  rw [length_mgf1 (MdFunctions.length_md_eq hsize) (by omega)]

theorem pssDb_of_room (hsize : h.size hashId ≠ 0) (hpos : 0 < modBits)
    (holen : olen = (modBits + 7) / 8)
    (hroom : h.size hashId + salt.length + 2 + pssOffset modBits ≤ olen) :
    pssDb (h.md hashId) (h.size hashId) (pssMessage h hashId modBits olen hash salt)
        (modBits - 1) =
      List.replicate (olen - h.size hashId - salt.length - 2 - pssOffset modBits) 0 ++
        0x01 :: salt := by
  have hzeros : (List.replicate (olen - h.size hashId - salt.length - 2) (0 : UInt8)).length =
    olen - h.size hashId - salt.length - 2 := List.length_replicate
  have hbits : 8 * (olen - pssOffset modBits) - (modBits - 1) ≤ 7 := by
    unfold pssOffset
    split <;> omega
  have hdrop : (pssBlock olen (h.size hashId) salt).drop (pssOffset modBits) =
      List.replicate (olen - h.size hashId - salt.length - 2 - pssOffset modBits) 0 ++
        0x01 :: salt := by
    unfold pssBlock
    rw [List.drop_append_of_le_length (by rw [hzeros]; omega), List.drop_replicate]
  rw [pssDb_pssMessage hsize (by omega), hdrop]
  generalize olen - h.size hashId - salt.length - 2 - pssOffset modBits = j
  rcases j with _ | j
  · exact clearTop_of_le_one hbits (by decide) _
  · exact clearTop_of_le_one hbits (by decide) _

theorem pssMessage_top (hsize : h.size hashId ≠ 0) (hpos : 0 < modBits)
    (holen : olen = (modBits + 7) / 8) (hroom : h.size hashId + salt.length + 2 ≤ olen)
    (hdb : 0 < olen - pssOffset modBits - h.size hashId - 1) :
    ((pssMessage h hashId modBits olen hash salt).headD 0).toNat <
      2 ^ (8 - (8 * (olen - pssOffset modBits) - (modBits - 1))) := by
  have hbits : 8 * (olen - pssOffset modBits) - (modBits - 1) ≤ 8 := by
    unfold pssOffset
    split <;> omega
  have hlen := @length_pssCleared _ _ modBits _ _ hsize hroom
    (h.md hashId (List.replicate 8 0 ++ hash ++ salt))
  unfold pssMessage
  simp only
  have hhead := headD_clearTop_lt (8 * (olen - pssOffset modBits) - (modBits - 1)) hbits
    (Bytes.xor ((pssBlock olen (h.size hashId) salt).drop (pssOffset modBits))
        (mgf1 (h.md hashId) (h.size hashId) (h.md hashId (List.replicate 8 0 ++ hash ++ salt))
          ((pssBlock olen (h.size hashId) salt).drop (pssOffset modBits)).length))
  generalize clearTop (8 * (olen - pssOffset modBits) - (modBits - 1))
    (Bytes.xor ((pssBlock olen (h.size hashId) salt).drop (pssOffset modBits))
        (mgf1 (h.md hashId) (h.size hashId) (h.md hashId (List.replicate 8 0 ++ hash ++ salt))
          ((pssBlock olen (h.size hashId) salt).drop (pssOffset modBits)).length)) = cleared
    at hlen hhead ⊢
  rcases cleared with _ | ⟨b, bs⟩
  · rw [List.length_nil] at hlen
    omega
  · exact hhead

end Message

/-! ## Signatures -/

theorem ofBE_lt_of_head {b : UInt8} {bs : ByteString} {t : Nat} (ht : t ≤ 8)
    (hb : b.toNat < 2 ^ (8 - t)) : ofBE (b :: bs) < 2 ^ (8 * (b :: bs).length - t) := by
  have hlow := ofBE_lt bs
  have hsplit : 8 * (b :: bs).length - t = (8 - t) + 8 * bs.length := by
    rw [List.length_cons]
    omega
  have hpow : 2 ^ (8 * bs.length) = 256 ^ bs.length := by rw [Nat.pow_mul]
  rw [ofBE_cons, hsplit, Nat.pow_add, hpow]
  calc b.toNat * 256 ^ bs.length + ofBE bs < b.toNat * 256 ^ bs.length + 256 ^ bs.length := by
        omega
    _ = (b.toNat + 1) * 256 ^ bs.length := by rw [Nat.succ_mul]
    _ ≤ 2 ^ (8 - t) * 256 ^ bs.length := Nat.mul_le_mul_right _ hb

theorem pssMessage_lt {hashId : MbedtlsMdType} (hsize : h.size hashId ≠ 0) {modBits olen : Nat}
    (hpos : 0 < modBits) (holen : olen = (modBits + 7) / 8) {hash salt : ByteString}
    (hroom : h.size hashId + salt.length + 2 ≤ olen) :
    ofBE (List.replicate (pssOffset modBits) 0 ++ pssMessage h hashId modBits olen hash salt) <
      2 ^ (modBits - 1) := by
  have hlen := @length_pssMessage _ _ modBits _ hash _ hsize hroom
  have hpow : 256 ^ (olen - 1) = 2 ^ (8 * (olen - 1)) := by rw [Nat.pow_mul]
  rw [ofBE_replicate_zero]
  by_cases hmod : (modBits - 1) % 8 = 0
  · have hoffset : pssOffset modBits = 1 := if_pos hmod
    have hbits : 8 * (olen - 1) = modBits - 1 := by omega
    rw [← hbits, ← hpow, ← hoffset, ← hlen]
    exact ofBE_lt _
  · have hoffset : pssOffset modBits = 0 := if_neg hmod
    have htop := @pssMessage_top _ _ _ _ hash _ hsize hpos holen hroom (by omega)
    have hbits : 8 * olen - (8 * (olen - 0) - (modBits - 1)) = modBits - 1 := by omega
    rw [hoffset] at hlen htop
    rcases hm : pssMessage h hashId modBits olen hash salt with _ | ⟨b, bs⟩
    · rw [hm, List.length_nil] at hlen
      omega
    rw [hm] at hlen htop
    rw [List.headD_cons] at htop
    have hlt := @ofBE_lt_of_head b bs _ (by omega) htop
    rw [hlen, Nat.sub_zero olen] at hlt
    rw [Nat.sub_zero] at hbits
    rwa [hbits] at hlt

/-- The length of the salt, where the signing function gets to it and `rsa_check_context` accepts
the key. -/
def pssAccepted (h : MdFunctions) (ctx : MbedtlsRsaContext) (mdAlg : MbedtlsMdType)
    (hash : ByteString) (saltlen : Int) : Option Nat :=
  if rsaCheckContext ctx = false then none
  else if mdAlg ≠ .none ∧ (h.size mdAlg = 0 ∨ hash.length ≠ h.size mdAlg) then none
  else if h.size (pssHashId ctx mdAlg) = 0 then none
  else pssSaltLen saltlen ctx.len (h.size (pssHashId ctx mdAlg))

theorem pssSaltLen_room {saltlen : Int} {olen hlen slen : Nat}
    (hsalt : pssSaltLen saltlen olen hlen = some slen) : hlen + slen + 2 ≤ olen := by
  unfold pssSaltLen at hsalt
  split at hsalt
  · simp only at hsalt
    split at hsalt
    · cases hsalt
    split at hsalt
    · cases hsalt
      omega
    · cases hsalt
      omega
  · split at hsalt
    · cases hsalt
    · cases hsalt
      omega

section Sign

variable {ctx : MbedtlsRsaContext} {mdAlg : MbedtlsMdType} {hash : ByteString} {saltlen : Int}
  {slen : Nat}

theorem pss_sign_eq (haccepted : pssAccepted h ctx mdAlg hash saltlen = some slen)
    (fRng : RsaRng) :
    rsaRsassaPssSignNoModeCheck h ctx fRng mdAlg hash saltlen =
      match fRng slen with
      | .error code => .error (.rngFailed code)
      | .ok salt => mbedtlsRsaPrivate ctx (List.replicate (pssOffset ctx.bitlen) 0 ++
          pssMessage h (pssHashId ctx mdAlg) ctx.bitlen ctx.len hash salt.1) := by
  unfold pssAccepted at haccepted
  split at haccepted
  · cases haccepted
  next hctx =>
  split at haccepted
  · cases haccepted
  next hmd =>
  split at haccepted
  · cases haccepted
  next hsize =>
  obtain ⟨hmax, hpos, _, _⟩ := rsaCheckContext_eq (Bool.eq_true_of_not_eq_false hctx)
  have hroom := pssSaltLen_room haccepted
  unfold rsaRsassaPssSignNoModeCheck
  rw [if_neg hmd, if_neg hsize, haccepted]
  simp only
  rcases hrng : fRng slen with code | ⟨salt, hsalt⟩
  · rfl
  · subst hsalt
    simp only
    rw [@pssEncode_eq h _ hsize ctx.bitlen ctx.len hpos rfl hmax hash salt hroom]

theorem pssAccepted_eq (haccepted : pssAccepted h ctx mdAlg hash saltlen = some slen) :
    rsaCheckContext ctx = true ∧
      ¬ (mdAlg ≠ .none ∧ (h.size mdAlg = 0 ∨ hash.length ≠ h.size mdAlg)) ∧
      h.size (pssHashId ctx mdAlg) ≠ 0 ∧ h.size (pssHashId ctx mdAlg) + slen + 2 ≤ ctx.len := by
  unfold pssAccepted at haccepted
  split at haccepted
  · cases haccepted
  next hctx =>
  split at haccepted
  · cases haccepted
  next hmd =>
  split at haccepted
  · cases haccepted
  next hsize =>
  exact ⟨Bool.eq_true_of_not_eq_false hctx, hmd, hsize, pssSaltLen_room haccepted⟩

theorem pss_verify_eq {salt sig : ByteString} (hctx : rsaCheckContext ctx = true)
    (hsize : h.size (pssHashId ctx mdAlg) ≠ 0)
    (hroom : h.size (pssHashId ctx mdAlg) + salt.length + 2 ≤ ctx.len) (expectedSaltLen : Int)
    (hsig : mbedtlsRsaPrivate ctx (List.replicate (pssOffset ctx.bitlen) 0 ++
      pssMessage h (pssHashId ctx mdAlg) ctx.bitlen ctx.len hash salt) = .ok sig) :
    mbedtlsRsaRsassaPssVerifyExt h ctx mdAlg hash (pssHashId ctx mdAlg) expectedSaltLen sig =
        .ok () ↔
      ¬ (mdAlg ≠ .none ∧ (h.size mdAlg = 0 ∨ hash.length ≠ h.size mdAlg)) ∧
      ∃ sLen : Nat, (expectedSaltLen = mbedtlsRsaSaltLenAny ∨
          (sLen : Int) = expectedSaltLen % 2 ^ 64) ∧
        PssConsistent (h.md (pssHashId ctx mdAlg)) (h.size (pssHashId ctx mdAlg)) hash
          (pssMessage h (pssHashId ctx mdAlg) ctx.bitlen ctx.len hash salt) (ctx.bitlen - 1)
          sLen := by
  obtain ⟨hmax, hpos, _, _⟩ := rsaCheckContext_eq hctx
  have hlow := (MdFunctions.size_bounds hsize).1
  have hoffset := pssOffset_le ctx.bitlen
  have hzeros : (List.replicate (pssOffset ctx.bitlen) (0 : UInt8)).length =
    pssOffset ctx.bitlen := List.length_replicate
  have hlen : (List.replicate (pssOffset ctx.bitlen) 0 ++
      pssMessage h (pssHashId ctx mdAlg) ctx.bitlen ctx.len hash salt).length = ctx.len := by
    rw [List.length_append, hzeros, length_pssMessage hsize hroom]
    omega
  have hpublic := mbedtlsRsaPublic_private hlen hsig
  unfold mbedtlsRsaRsassaPssVerifyExt
  rw [if_neg (by omega), hpublic]
  rw [@pssCheck_iff h mdAlg _ hash _ expectedSaltLen ctx.bitlen ctx.len hpos rfl hmax hlen,
    List.take_left' hzeros, List.drop_left' hzeros]
  constructor
  · rintro ⟨hmd, _, _, hex⟩
    exact ⟨hmd, hex⟩
  · rintro ⟨hmd, hex⟩
    exact ⟨hmd, hsize, rfl, hex⟩

theorem pssConsistent_of_room {salt : ByteString} (hctx : rsaCheckContext ctx = true)
    {hashId : MbedtlsMdType} (hsize : h.size hashId ≠ 0)
    (hroom : h.size hashId + salt.length + 2 + pssOffset ctx.bitlen ≤ ctx.len) :
    PssConsistent (h.md hashId) (h.size hashId) hash
      (pssMessage h hashId ctx.bitlen ctx.len hash salt) (ctx.bitlen - 1) salt.length := by
  obtain ⟨_, hpos, _, _⟩ := rsaCheckContext_eq hctx
  have hroom' : h.size hashId + salt.length + 2 ≤ ctx.len := by omega
  have hlen := @length_pssMessage _ _ ctx.bitlen _ hash _ hsize hroom'
  rw [pssConsistent_iff]
  · exact ⟨_, salt, pssDb_of_room hsize hpos rfl hroom, rfl, pssHash_pssMessage hsize hroom'⟩
  · rw [hlen]
    exact pssLength_eq hpos rfl
  · rw [hlen]
    omega
  · unfold pssMessage
    rw [← List.append_assoc, List.getD_eq_getElem?_getD, List.length_append, List.length_singleton,
      Nat.add_sub_cancel, List.getElem?_append_right le_rfl, Nat.sub_self]
    rfl
  · rw [hlen]
    exact pssMessage_top hsize hpos rfl hroom' (by omega)
  · rw [pssDb_pssMessage hsize hroom', length_clearTop, length_pssDrop hroom', hlen]

theorem not_pssConsistent_of_zeros {n : Nat} {hashId : MbedtlsMdType}
    (hsize : h.size hashId ≠ 0) (hbits : (ctx.bitlen - 1) % 8 = 0)
    (hctx : rsaCheckContext ctx = true)
    (hroom : h.size hashId + n + 2 = ctx.len) (sLen : Nat) :
    ¬ PssConsistent (h.md hashId) (h.size hashId) hash
      (pssMessage h hashId ctx.bitlen ctx.len hash (List.replicate n 0)) (ctx.bitlen - 1) sLen := by
  intro hpss
  have hone := hpss.one
  have hroom' : h.size hashId + (List.replicate n (0 : UInt8)).length + 2 ≤ ctx.len := by
    rw [List.length_replicate]
    omega
  have hoffset : pssOffset ctx.bitlen = 1 := if_pos hbits
  have hclear : 8 * (ctx.len - 1) - (ctx.bitlen - 1) = 0 := by
    unfold MbedtlsRsaContext.len
    omega
  have hnone : ctx.len - h.size hashId - (List.replicate n (0 : UInt8)).length - 2 = 0 := by
    rw [List.length_replicate]
    omega
  rw [pssDb_pssMessage hsize hroom', hoffset, hclear, clearTop_zero] at hone
  unfold pssBlock at hone
  rw [hnone, List.replicate_zero, List.nil_append, List.drop_one, List.tail_cons,
    List.getD_eq_getElem?_getD, List.getElem?_replicate] at hone
  split at hone
  · exact absurd hone (by decide)
  · exact absurd hone (by decide)

theorem pssSaltLen_of_sign {fRng : RsaRng} {sig : ByteString}
    (hsig : rsaRsassaPssSignNoModeCheck h ctx fRng mdAlg hash saltlen = .ok sig) :
    ∃ slen, pssAccepted h ctx mdAlg hash saltlen = some slen := by
  unfold rsaRsassaPssSignNoModeCheck at hsig
  simp only at hsig
  split at hsig
  · cases hsig
  next hmd =>
  split at hsig
  · cases hsig
  next hsize =>
  rcases hslen : pssSaltLen saltlen ctx.len (h.size (pssHashId ctx mdAlg)) with _ | slen
  · rw [hslen] at hsig
    cases hsig
  rw [hslen] at hsig
  simp only at hsig
  refine ⟨slen, ?_⟩
  unfold pssAccepted
  rw [if_neg hmd, if_neg hsize, hslen, if_neg]
  intro hctx
  split at hsig
  · cases hsig
  split at hsig
  · cases hsig
  unfold mbedtlsRsaPrivate at hsig
  rw [if_pos hctx] at hsig
  cases hsig

theorem pssAccepted_of_checks (hctx : rsaCheckContext ctx = true)
    (hmd : ¬ (mdAlg ≠ .none ∧ (h.size mdAlg = 0 ∨ hash.length ≠ h.size mdAlg)))
    (hsize : h.size (pssHashId ctx mdAlg) ≠ 0) :
    pssAccepted h ctx mdAlg hash saltlen =
      pssSaltLen saltlen ctx.len (h.size (pssHashId ctx mdAlg)) := by
  unfold pssAccepted
  rw [if_neg (by rw [hctx]; decide), if_neg hmd, if_neg hsize]

end Sign

/-! ## Verification -/

/-- The salt takes all the room in a buffer of `olen` bytes. -/
def PssFull (saltlen : Int) (olen hlen : Nat) : Prop :=
  if saltlen = mbedtlsRsaSaltLenAny then 2 * hlen ≤ olen ∧ olen ≤ 2 * hlen + 2
  else 0 ≤ saltlen ∧ saltlen + hlen + 2 = olen

theorem pssFull_iff {saltlen : Int} {olen hlen : Nat} (hlow : 2 ≤ hlen) :
    PssFull saltlen olen hlen ↔
      ∃ slen, pssSaltLen saltlen olen hlen = some slen ∧ slen + hlen + 2 = olen := by
  unfold PssFull pssSaltLen
  split
  · simp only
    constructor
    · rintro ⟨hmin, hmax⟩
      rw [if_neg (by omega)]
      split
      · exact ⟨hlen, rfl, by omega⟩
      · exact ⟨olen - hlen - 2, rfl, by omega⟩
    · rintro ⟨slen, hslen, hfull⟩
      split at hslen
      · cases hslen
      split at hslen
      · cases hslen
        omega
      · cases hslen
        omega
  · constructor
    · rintro ⟨hpos, hfull⟩
      rw [if_neg (by omega)]
      exact ⟨saltlen.toNat, rfl, by omega⟩
    rintro ⟨slen, hslen, hfull⟩
    split at hslen
    · cases hslen
    · cases hslen
      omega

def PssVerifies (h : MdFunctions) (ctx : MbedtlsRsaContext) (mdAlg : MbedtlsMdType)
    (hash : ByteString) (saltlen : Int) : Prop :=
  ∀ (fRng : RsaRng) (sig : ByteString),
    rsaRsassaPssSignNoModeCheck h ctx fRng mdAlg hash saltlen = .ok sig →
    ∃ slen : Nat, pssSaltLen saltlen ctx.len (h.size (pssHashId ctx mdAlg)) = some slen ∧
      ∀ expected : Int, expected = mbedtlsRsaSaltLenAny ∨ expected = slen →
        mbedtlsRsaRsassaPssVerifyExt h ctx mdAlg hash (pssHashId ctx mdAlg) expected sig = .ok () ∧
        rsaPkcs1VerifyPss h ctx mdAlg hash sig = .ok ()

section Verify

variable {ctx : MbedtlsRsaContext} {mdAlg : MbedtlsMdType} {hash : ByteString} {saltlen : Int}

theorem pssVerifies_of_room
    (hroom : ∀ slen, pssAccepted h ctx mdAlg hash saltlen = some slen →
      slen + h.size (pssHashId ctx mdAlg) + 2 + pssOffset ctx.bitlen ≤ ctx.len) :
    PssVerifies h ctx mdAlg hash saltlen := by
  intro fRng sig hsig
  obtain ⟨slen, haccepted⟩ := pssSaltLen_of_sign hsig
  obtain ⟨hctx, hmd, hsize, hfits⟩ := pssAccepted_eq haccepted
  obtain ⟨hmax, _⟩ := rsaCheckContext_eq hctx
  have hslen := haccepted
  rw [pssAccepted_of_checks hctx hmd hsize] at hslen
  have hspace := hroom slen haccepted
  rw [pss_sign_eq haccepted] at hsig
  rcases hrng : fRng slen with code | ⟨salt, hsalt⟩
  · rw [hrng] at hsig
    cases hsig
  rw [hrng] at hsig
  subst hsalt
  have hconsistent := @pssConsistent_of_room h ctx hash salt hctx _ hsize (by omega)
  have hverify : ∀ expected : Int, expected = mbedtlsRsaSaltLenAny ∨ expected = salt.length →
      mbedtlsRsaRsassaPssVerifyExt h ctx mdAlg hash (pssHashId ctx mdAlg) expected sig =
        .ok () := by
    intro expected hexpected
    rw [pss_verify_eq hctx hsize hfits expected hsig]
    refine ⟨hmd, salt.length, ?_, hconsistent⟩
    rcases hexpected with hany | hsame
    · exact .inl hany
    · right
      unfold rsaMpiMaxSize at hmax
      rw [hsame, Int.emod_eq_of_lt (by omega) (by omega)]
  exact ⟨salt.length, hslen, fun expected hexpected =>
    ⟨hverify expected hexpected, hverify _ (.inl rfl)⟩⟩

theorem not_pssVerifies_of_full {slen : Nat} (hbits : (ctx.bitlen - 1) % 8 = 0)
    (haccepted : pssAccepted h ctx mdAlg hash saltlen = some slen)
    (hfull : slen + h.size (pssHashId ctx mdAlg) + 2 = ctx.len) :
    ¬ PssVerifies h ctx mdAlg hash saltlen := by
  intro hverifies
  obtain ⟨hctx, hmd, hsize, hfits⟩ := pssAccepted_eq haccepted
  obtain ⟨hmax, hpos, _, hN⟩ := rsaCheckContext_eq hctx
  have hzeros : (List.replicate slen (0 : UInt8)).length = slen := List.length_replicate
  have hroom : h.size (pssHashId ctx mdAlg) + (List.replicate slen (0 : UInt8)).length + 2 ≤
      ctx.len := by
    rw [hzeros]
    exact hfits
  have hlt := @pssMessage_lt h _ hsize ctx.bitlen ctx.len hpos rfl hash _ hroom
  have hoffset := pssOffset_le ctx.bitlen
  have hlen : (List.replicate (pssOffset ctx.bitlen) 0 ++ pssMessage h (pssHashId ctx mdAlg)
      ctx.bitlen ctx.len hash (List.replicate slen 0)).length = ctx.len := by
    rw [List.length_append, List.length_replicate, length_pssMessage hsize hroom]
    omega
  have hsig : ∃ sig, mbedtlsRsaPrivate ctx (List.replicate (pssOffset ctx.bitlen) 0 ++
      pssMessage h (pssHashId ctx mdAlg) ctx.bitlen ctx.len hash (List.replicate slen 0)) =
        .ok sig := by
    generalize List.replicate (pssOffset ctx.bitlen) 0 ++ pssMessage h (pssHashId ctx mdAlg)
      ctx.bitlen ctx.len hash (List.replicate slen 0) = em at hlen hlt
    refine ⟨toBE ctx.len (ctx.key.privateOp (ofBE em)), ?_⟩
    unfold mbedtlsRsaPrivate
    rw [if_neg (by rw [hctx]; decide)]
    rw [List.take_of_length_le hlen.le, if_neg (Nat.not_le.mpr (hlt.trans_le hN))]
  obtain ⟨sig, hsig⟩ := hsig
  have hsign := pss_sign_eq haccepted (fun n => .ok ⟨List.replicate n 0, List.length_replicate⟩)
  simp only at hsign
  rw [hsig] at hsign
  obtain ⟨_, _, hall⟩ := hverifies _ sig hsign
  obtain ⟨hok, _⟩ := hall mbedtlsRsaSaltLenAny (.inl rfl)
  rw [pss_verify_eq hctx hsize hroom _ hsig] at hok
  obtain ⟨_, sLen, _, hconsistent⟩ := hok
  exact not_pssConsistent_of_zeros hsize hbits hctx (by omega) sLen hconsistent

def rsaKey1025 : MbedtlsRsaContext where
  key :=
    { N := 2 ^ 1024 + 1
      publicOp := id
      privateOp := id
      publicOp_lt := fun _ hx => hx
      privateOp_lt := fun _ hx => hx
      public_private := fun _ _ => rfl
      private_public := fun _ _ => rfl }
  padding := .v21
  hashId := .none

def zeroHashes : MdFunctions where
  supported := fun _ => true
  md := fun type _ => List.replicate (mdInfoSize type) 0
  length_md := fun _ _ => List.length_replicate

/-- With 1025 bits and SHA-512, the largest salt that fits is 63 bytes of the 129, and there the
signature need not verify. -/
theorem rsa_pss_not_verified :
    ¬ PssVerifies zeroHashes rsaKey1025 .sha512 (List.replicate 64 0) mbedtlsRsaSaltLenAny := by
  have hbits : rsaKey1025.bitlen = 1025 := by decide +kernel
  have hlen : rsaKey1025.len = 129 := by
    unfold MbedtlsRsaContext.len
    rw [hbits]
  have haccepted : pssAccepted zeroHashes rsaKey1025 .sha512 (List.replicate 64 0)
      mbedtlsRsaSaltLenAny = some 63 := by decide +kernel
  apply not_pssVerifies_of_full _ haccepted
  · rw [hlen]
    rfl
  · rw [hbits]

theorem pss_verified {mgf1HashId : MbedtlsMdType} {expected : Int} {sig : ByteString}
    (hok : mbedtlsRsaRsassaPssVerifyExt h ctx mdAlg hash mgf1HashId expected sig = .ok ()) :
    ∃ sLen : Nat, (expected = mbedtlsRsaSaltLenAny ∨ (sLen : Int) = expected % 2 ^ 64) ∧
      ctx.key.publicOp (ofBE (sig.take ctx.len)) < 256 ^ ((ctx.bitlen - 1 + 7) / 8) ∧
      PssConsistent (h.md mgf1HashId) (h.size mgf1HashId) hash
        (toBE ((ctx.bitlen - 1 + 7) / 8) (ctx.key.publicOp (ofBE (sig.take ctx.len))))
        (ctx.bitlen - 1) sLen := by
  unfold mbedtlsRsaRsassaPssVerifyExt at hok
  simp only at hok
  split at hok
  · cases hok
  rcases hpublic : mbedtlsRsaPublic ctx sig with _ | buf
  · rw [hpublic] at hok
    cases hok
  rw [hpublic] at hok
  unfold mbedtlsRsaPublic at hpublic
  split at hpublic
  · cases hpublic
  next hctx =>
  simp only at hpublic
  split at hpublic
  · cases hpublic
  next hlt =>
  cases hpublic
  obtain ⟨hmax, hpos, hN, _⟩ := rsaCheckContext_eq (Bool.eq_true_of_not_eq_false hctx)
  rw [Nat.not_le] at hlt
  have hop := ctx.key.publicOp_lt _ hlt
  generalize ctx.key.publicOp (ofBE (sig.take ctx.len)) = m at hop hok ⊢
  rw [@pssCheck_iff h mdAlg mgf1HashId hash (toBE ctx.len m) expected ctx.bitlen ctx.len hpos rfl
    hmax (length_toBE _ _)] at hok
  obtain ⟨_, _, hlead, sLen, hexpected, hconsistent⟩ := hok
  have hemlen := pssLength_eq hpos (rfl : ctx.len = _)
  have hsplit : toBE ctx.len m = List.replicate (pssOffset ctx.bitlen) 0 ++
      (toBE ctx.len m).drop (pssOffset ctx.bitlen) := by
    conv_lhs => rw [← List.take_append_drop (pssOffset ctx.bitlen) (toBE ctx.len m)]
    rw [hlead]
  have hvalue : ofBE ((toBE ctx.len m).drop (pssOffset ctx.bitlen)) = m := by
    have hall := congrArg ofBE hsplit
    rw [ofBE_toBE, Nat.mod_eq_of_lt (hop.trans hN), ofBE_replicate_zero] at hall
    exact hall.symm
  have hdrop : ((toBE ctx.len m).drop (pssOffset ctx.bitlen)).length =
      (ctx.bitlen - 1 + 7) / 8 := by
    rw [List.length_drop, length_toBE, hemlen]
  have hem : toBE ((ctx.bitlen - 1 + 7) / 8) m = (toBE ctx.len m).drop (pssOffset ctx.bitlen) := by
    have hback := toBE_ofBE ((toBE ctx.len m).drop (pssOffset ctx.bitlen))
    rwa [hvalue, hdrop] at hback
  refine ⟨sLen, hexpected, ?_, ?_⟩
  · have hbound := ofBE_lt ((toBE ctx.len m).drop (pssOffset ctx.bitlen))
    rwa [hvalue, hdrop] at hbound
  · rw [hem]
    exact hconsistent

end Verify

/-- What `rsa_rsassa_pss_sign_no_mode_check` signs verifies unless the modulus has one bit more
than a number of bytes and the salt takes all the room of its buffer. -/
theorem rsa_pss_verifies_iff (h : MdFunctions) (ctx : MbedtlsRsaContext) (mdAlg : MbedtlsMdType)
    (hash : ByteString) (saltlen : Int) :
    (PssVerifies h ctx mdAlg hash saltlen ↔
      ¬ (rsaCheckContext ctx = true ∧
        ¬ (mdAlg ≠ .none ∧ (h.size mdAlg = 0 ∨ hash.length ≠ h.size mdAlg)) ∧
        h.size (pssHashId ctx mdAlg) ≠ 0 ∧ ctx.bitlen % 8 = 1 ∧
        PssFull saltlen ctx.len (h.size (pssHashId ctx mdAlg)))) ∧
    ∀ (mgf1HashId : MbedtlsMdType) (expected : Int) (sig : ByteString),
      mbedtlsRsaRsassaPssVerifyExt h ctx mdAlg hash mgf1HashId expected sig = .ok () →
      ∃ sLen : Nat, (expected = mbedtlsRsaSaltLenAny ∨ (sLen : Int) = expected % 2 ^ 64) ∧
        ctx.key.publicOp (ofBE (sig.take ctx.len)) < 256 ^ ((ctx.bitlen - 1 + 7) / 8) ∧
        PssConsistent (h.md mgf1HashId) (h.size mgf1HashId) hash
          (toBE ((ctx.bitlen - 1 + 7) / 8) (ctx.key.publicOp (ofBE (sig.take ctx.len))))
          (ctx.bitlen - 1) sLen := by
  refine ⟨⟨?_, ?_⟩, fun mgf1HashId expected sig hok => pss_verified hok⟩
  · rintro hverifies ⟨hctx, hmd, hsize, hbits, hfull⟩
    have hlow := (MdFunctions.size_bounds hsize).1
    obtain ⟨slen, hslen, hroom⟩ := (pssFull_iff (by omega)).mp hfull
    rw [← pssAccepted_of_checks hctx hmd hsize] at hslen
    exact not_pssVerifies_of_full (by omega) hslen hroom hverifies
  · intro hnot
    apply pssVerifies_of_room
    intro slen haccepted
    obtain ⟨hctx, hmd, hsize, hfits⟩ := pssAccepted_eq haccepted
    have hpos := (rsaCheckContext_eq hctx).2.1
    have hlow := (MdFunctions.size_bounds hsize).1
    unfold pssOffset
    split
    · next hbits =>
      have hnotfull : slen + h.size (pssHashId ctx mdAlg) + 2 ≠ ctx.len := by
        intro hfull
        refine hnot ⟨hctx, hmd, hsize, by omega, (pssFull_iff (by omega)).mpr ⟨slen, ?_, hfull⟩⟩
        rw [← pssAccepted_of_checks hctx hmd hsize]
        exact haccepted
      omega
    · omega

end TfPsaCrypto
