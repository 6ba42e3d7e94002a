import Mathlib.Data.List.TakeWhile
import TfPsaCrypto.Builtin.RsaEncrypt
import TfPsaCrypto.Builtin.RsaPssVerify

/-!
# Messages that are decrypted

The constant-time decoders of `rsa.c` do what those of PKCS #1 do.
-/

namespace TfPsaCrypto

open Bytes Pkcs1

/-! ## Removing the padding of PKCS1-v1_5 -/

/-- The direct decoder on a buffer of `outputMaxLen` bytes: only zeros are written on error. -/
def v15Result (em : ByteString) (outputMaxLen : UInt64) : V15Unpadded :=
  let plaintextMaxSize := min outputMaxLen.toNat (em.length - 11)
  match v15Decode em with
  | none =>
    { ret := mbedtlsErrRsaInvalidPadding
      olen := UInt64.ofNat plaintextMaxSize
      output := List.replicate plaintextMaxSize 0 }
  | some m =>
    if m.length ≤ outputMaxLen.toNat then
      { ret := 0
        olen := UInt64.ofNat m.length
        output := m ++ List.replicate (plaintextMaxSize - m.length) 0 }
    else
      { ret := mbedtlsErrRsaOutputTooLarge
        olen := UInt64.ofNat plaintextMaxSize
        output := List.replicate plaintextMaxSize 0 }

def v15PadCount (em : ByteString) : Nat := ((em.drop 2).takeWhile (· ≠ 0)).length

theorem byte_eq_zero (b : UInt8) : b.toUInt64 = 0 ↔ b = 0 := UInt8.toUInt64_inj (b := 0)

theorem v15PadLoop_eq (bs : ByteString) (done : Bool) (count : UInt64) :
    v15PadLoop bs (ctMask done) count =
      (ctMask (done || bs.any (· = 0)),
        count + if done then 0 else UInt64.ofNat (bs.takeWhile (· ≠ 0)).length) := by
  induction bs generalizing done count with
  | nil => cases done <;> simp [v15PadLoop]
  | cons b bs ih =>
    unfold v15PadLoop
    simp only
    rw [mbedtlsCtUintEq_eq, mbedtlsCtBoolOr_mask, mbedtlsCtBoolNot_mask,
      mbedtlsCtUintIfElse0_mask, ih]
    by_cases hb : b = 0
    · subst hb
      cases done <;> simp
    have hword : b.toUInt64 ≠ 0 := fun hzero => hb ((byte_eq_zero b).mp hzero)
    cases done
    · simp only [hb, hword, decide_false, Bool.or_false, Bool.not_false, if_true,
        List.any_cons, Bool.false_or, List.takeWhile_cons, ne_eq, not_false_eq_true,
        decide_true, List.length_cons, Bool.false_eq_true, if_false]
      rw [UInt64.ofNat_add, add_assoc, add_comm (UInt64.ofNat _)]
      rfl
    · simp

def v15Bad (em : ByteString) : Bool :=
  em.getD 0 0 ≠ 0 || em.getD 1 0 ≠ mbedtlsRsaCrypt || !(em.drop 2).any (· = 0) || v15PadCount em < 8

theorem v15Bad_eq {em : ByteString} (hem : 2 ≤ em.length) :
    v15Bad em = (v15Decode em).isNone := by
  rcases em with _ | ⟨y, _ | ⟨t, rest⟩⟩
  · cases hem
  · rw [List.length_singleton] at hem
    omega
  have hbody : (y :: t :: rest).drop 2 = rest := rfl
  have htwo : (y :: t :: rest).take 2 = [y, t] := rfl
  unfold v15Bad v15Decode v15PadCount
  rw [hbody, htwo]
  show (decide (y ≠ 0) || decide (t ≠ 2) || _ || _) = _
  rcases hdrop : rest.dropWhile (· ≠ 0) with _ | ⟨z, rest'⟩
  · have hany : rest.any (· = 0) = false := by
      rw [List.dropWhile_eq_nil_iff] at hdrop
      rw [List.any_eq_false]
      intro b hb
      simpa using hdrop b hb
    rw [hany, hdrop]
    simp
  · have hany : rest.any (· = 0) = true := by
      have hz : z = 0 := by
        have hhead := List.head?_dropWhile_not (· ≠ 0) rest
        rw [hdrop] at hhead
        simpa using hhead
      rw [List.any_eq_true]
      refine ⟨z, ?_, by simpa using hz⟩
      apply (List.dropWhile_suffix (· ≠ 0)).subset
      rw [hdrop]
      exact List.mem_cons_self
    rw [hany, hdrop]
    simp only
    split
    · next hgood =>
      obtain ⟨hhead, hlong⟩ := hgood
      obtain ⟨rfl, htail⟩ := List.cons.inj hhead
      obtain ⟨rfl, _⟩ := List.cons.inj htail
      simpa using hlong
    · next hbad =>
      simp only [List.cons.injEq, and_true, not_and, Nat.not_le] at hbad
      by_cases hy : y = 0
      · by_cases ht : t = 2
        · have hshort := hbad ⟨hy, ht⟩
          simpa [hy, ht] using hshort
        · simp [ht]
      · simp [hy]

theorem toUInt64_toUInt32 {x : UInt64} (hx : x.toNat < 2 ^ 32) : x.toUInt32.toUInt64 = x := by
  apply UInt64.toNat_inj.mp
  rw [UInt32.toNat_toUInt64, UInt64.toNat_toUInt32, Nat.mod_eq_of_lt hx]

section Unpadding

variable {em : ByteString} {outputMaxLen : UInt64}

def v15MaxSize (em : ByteString) (outputMaxLen : UInt64) : UInt64 :=
  if outputMaxLen > UInt64.ofNat em.length - 11 then UInt64.ofNat em.length - 11 else outputMaxLen

theorem v15MaxSize_toNat (hem : 11 ≤ em.length) (hmax : em.length < 2 ^ 32) :
    (v15MaxSize em outputMaxLen).toNat = min outputMaxLen.toNat (em.length - 11) := by
  have hlen : (UInt64.ofNat em.length).toNat = em.length :=
    UInt64.toNat_ofNat_of_lt' (hmax.trans (by decide))
  have hsub : (UInt64.ofNat em.length - 11).toNat = em.length - 11 := by
    rw [UInt64.toNat_sub_of_le, hlen]
    · rfl
    · rw [UInt64.le_iff_toNat_le, hlen]
      exact hem
  unfold v15MaxSize
  split
  · next hlt =>
    rw [gt_iff_lt, UInt64.lt_iff_toNat_lt, hsub] at hlt
    rw [hsub]
    omega
  · next hnot =>
    rw [gt_iff_lt, UInt64.lt_iff_toNat_lt, hsub] at hnot
    omega

theorem v15Unpadding_eq (hem : 2 ≤ em.length) (hmax : em.length < 2 ^ 32) :
    mbedtlsCtRsaesPkcs1V15Unpadding em outputMaxLen =
      let plaintextMaxSize := v15MaxSize em outputMaxLen
      let bad := (v15Decode em).isNone
      let size := (if bad then plaintextMaxSize.toUInt32
        else (UInt64.ofNat em.length - UInt64.ofNat (v15PadCount em) - 3).toUInt32).toUInt64
      let tooLarge := decide (plaintextMaxSize < size)
      let input := em.take 11 ++
        if bad || tooLarge then List.replicate (em.drop 11).length 0 else em.drop 11
      let size' := (if tooLarge then plaintextMaxSize.toUInt32 else size.toUInt32).toUInt64
      { ret := mbedtlsCtErrorIf (ctMask bad) mbedtlsErrRsaInvalidPadding
          (mbedtlsCtErrorIfElse0 (ctMask tooLarge) mbedtlsErrRsaOutputTooLarge)
        olen := size'
        output := if outputMaxLen ≠ 0 then
            mbedtlsCtMemmoveLeft
              (input.drop (UInt64.ofNat em.length - plaintextMaxSize).toNat)
              (plaintextMaxSize - size')
          else [] } := by
  have hfirst : mbedtlsCtBool (em.getD 0 0).toUInt64 = ctMask (em.getD 0 0 ≠ 0) := by
    rw [mbedtlsCtBool_eq, ctMask_inj]
    simp only [ne_eq, byte_eq_zero]
  have hsecond : mbedtlsCtUintNe (em.getD 1 0).toUInt64 mbedtlsRsaCrypt.toUInt64 =
      ctMask (em.getD 1 0 ≠ mbedtlsRsaCrypt) := by
    rw [mbedtlsCtUintNe_eq, ctMask_inj]
    simp only [ne_eq, UInt8.toUInt64_inj]
  have hloop := v15PadLoop_eq (em.drop 2) false 0
  rw [Bool.false_or, if_neg (by decide), UInt64.zero_add] at hloop
  have hfalse : ctFalse = ctMask false := rfl
  have hshort : v15PadCount em ≤ em.length := by
    have htake := (List.takeWhile_prefix (p := (· ≠ 0)) (l := em.drop 2)).length_le
    rw [List.length_drop] at htake
    unfold v15PadCount
    omega
  have hcount : mbedtlsCtUintGt 8 (UInt64.ofNat (v15PadCount em)) =
      ctMask (v15PadCount em < 8) := by
    unfold mbedtlsCtUintGt
    rw [mbedtlsCtUintLt_eq, ctMask_inj, Bool.eq_iff_iff, decide_eq_true_iff, decide_eq_true_iff,
      UInt64.lt_iff_toNat_lt, UInt64.toNat_ofNat_of_lt' (by
        show v15PadCount em < 2 ^ 64
        omega)]
    rfl
  have hbad := v15Bad_eq hem
  unfold v15Bad at hbad
  unfold mbedtlsCtRsaesPkcs1V15Unpadding
  rw [hfalse, hloop]
  unfold v15PadCount at hcount hbad ⊢
  have hmaxSize : (if outputMaxLen > UInt64.ofNat em.length - 11 then
      UInt64.ofNat em.length - 11 else outputMaxLen) = v15MaxSize em outputMaxLen := rfl
  simp only [hfirst, hsecond, hcount, mbedtlsCtBoolOr_mask, mbedtlsCtBoolNot_mask, hbad,
    mbedtlsCtUintIf_mask, hmaxSize]
  unfold mbedtlsCtUintGt
  simp only [mbedtlsCtUintLt_eq, mbedtlsCtBoolOr_mask, mbedtlsCtZeroizeIf_mask,
    mbedtlsCtUintIf_mask, decide_eq_true_eq]

theorem v15Moved_zeros (hem : 11 ≤ em.length) (hmax : em.length < 2 ^ 32) :
    (if outputMaxLen ≠ 0 then
      mbedtlsCtMemmoveLeft
        ((em.take 11 ++ List.replicate (em.drop 11).length 0).drop
          (UInt64.ofNat em.length - v15MaxSize em outputMaxLen).toNat)
        (v15MaxSize em outputMaxLen - v15MaxSize em outputMaxLen)
      else []) = List.replicate (min outputMaxLen.toNat (em.length - 11)) 0 := by
  have hsize := @v15MaxSize_toNat em outputMaxLen hem hmax
  have hlen : (UInt64.ofNat em.length).toNat = em.length :=
    UInt64.toNat_ofNat_of_lt' (hmax.trans (by decide))
  have hstart : (UInt64.ofNat em.length - v15MaxSize em outputMaxLen).toNat =
      em.length - min outputMaxLen.toNat (em.length - 11) := by
    rw [UInt64.toNat_sub_of_le, hlen, hsize]
    rw [UInt64.le_iff_toNat_le, hlen, hsize]
    omega
  have htake : (em.take 11).length = 11 := List.length_take_of_le hem
  have hzeros : (em.take 11 ++ List.replicate (em.drop 11).length 0).drop
      (UInt64.ofNat em.length - v15MaxSize em outputMaxLen).toNat =
      List.replicate (min outputMaxLen.toNat (em.length - 11)) 0 := by
    rw [hstart, List.drop_append, List.drop_eq_nil_of_le (by rw [htake]; omega), List.nil_append,
      List.drop_replicate, List.length_drop, htake]
    congr 1
    omega
  split
  · rw [hzeros, UInt64.sub_self, mbedtlsCtMemmoveLeft_eq]
    · exact List.append_nil _
    · rw [List.length_replicate]
      omega
    · exact Nat.zero_le _
  · next hzero =>
    rw [not_not] at hzero
    subst hzero
    rw [show (0 : UInt64).toNat = 0 from rfl, Nat.zero_min]
    rfl

theorem v15Moved_message {before m : ByteString} (hsplit : em = before ++ m)
    (hfits : m.length ≤ min outputMaxLen.toNat (em.length - 11))
    (hem : 11 ≤ em.length) (hmax : em.length < 2 ^ 32) :
    (if outputMaxLen ≠ 0 then
      mbedtlsCtMemmoveLeft (em.drop (UInt64.ofNat em.length - v15MaxSize em outputMaxLen).toNat)
        (v15MaxSize em outputMaxLen - UInt64.ofNat m.length)
      else []) =
      m ++ List.replicate (min outputMaxLen.toNat (em.length - 11) - m.length) 0 := by
  have hsize := @v15MaxSize_toNat em outputMaxLen hem hmax
  have hlen : (UInt64.ofNat em.length).toNat = em.length :=
    UInt64.toNat_ofNat_of_lt' (hmax.trans (by decide))
  have hmlen : (UInt64.ofNat m.length).toNat = m.length :=
    UInt64.toNat_ofNat_of_lt' (by
      show m.length < 2 ^ 64
      omega)
  have hstart : (UInt64.ofNat em.length - v15MaxSize em outputMaxLen).toNat =
      em.length - min outputMaxLen.toNat (em.length - 11) := by
    rw [UInt64.toNat_sub_of_le, hlen, hsize]
    rw [UInt64.le_iff_toNat_le, hlen, hsize]
    omega
  have hoffset : (v15MaxSize em outputMaxLen - UInt64.ofNat m.length).toNat =
      min outputMaxLen.toNat (em.length - 11) - m.length := by
    rw [UInt64.toNat_sub_of_le, hmlen, hsize]
    rw [UInt64.le_iff_toNat_le, hmlen, hsize]
    exact hfits
  split
  · rw [mbedtlsCtMemmoveLeft_eq]
    · rw [hoffset, hstart, List.drop_drop]
      have hbefore : em.length - min outputMaxLen.toNat (em.length - 11) +
          (min outputMaxLen.toNat (em.length - 11) - m.length) = before.length := by
        have hall := congrArg List.length hsplit
        rw [List.length_append] at hall
        omega
      rw [hbefore, hsplit, List.drop_left]
    · rw [List.length_drop]
      omega
    · rw [hoffset, hstart, List.length_drop]
      omega
  · next hzero =>
    rw [not_not] at hzero
    subst hzero
    rw [show (0 : UInt64).toNat = 0 from rfl, Nat.zero_min] at hfits ⊢
    rw [List.length_eq_zero_iff.mp (Nat.le_zero.mp hfits)]
    rfl

theorem v15_unpadding (hem : 11 ≤ em.length) (hmax : em.length < 2 ^ 32) :
    mbedtlsCtRsaesPkcs1V15Unpadding em outputMaxLen = v15Result em outputMaxLen := by
  have hsize := @v15MaxSize_toNat em outputMaxLen hem hmax
  have hnarrow : (v15MaxSize em outputMaxLen).toUInt32.toUInt64 = v15MaxSize em outputMaxLen :=
    toUInt64_toUInt32 (by omega)
  have hself : ¬ v15MaxSize em outputMaxLen < v15MaxSize em outputMaxLen := by
    rw [UInt64.lt_iff_toNat_lt]
    omega
  have hofNat : v15MaxSize em outputMaxLen =
      UInt64.ofNat (min outputMaxLen.toNat (em.length - 11)) := by
    rw [← hsize, UInt64.ofNat_toNat]
  have hzeros := @v15Moved_zeros em outputMaxLen hem hmax
  rw [v15Unpadding_eq (by omega) hmax]
  unfold v15Result
  rcases hdecode : v15Decode em with _ | m
  · simp only [Option.isNone_none, if_true, hnarrow, hself, decide_false, Bool.or_false,
      Bool.false_eq_true, if_false]
    rw [hzeros, ← hofNat]
    rfl
  · obtain ⟨ps, hps, hlong, hencode⟩ := v15Decode_iff.mp hdecode
    have hcount : v15PadCount em = ps.length := by
      rw [hencode]
      exact congrArg List.length (takeWhile_nonzero hps).1
    have hlength : em.length = ps.length + 3 + m.length := by
      rw [hencode]
      unfold v15Encode
      rw [List.length_cons, List.length_cons, List.length_append, List.length_cons]
      omega
    have hsplit : em = (0x00 :: 0x02 :: (ps ++ [0x00])) ++ m := by
      rw [hencode]
      unfold v15Encode
      simp
    have hplain : UInt64.ofNat em.length - UInt64.ofNat (v15PadCount em) - 3 =
        UInt64.ofNat m.length := by
      rw [hcount, hlength, UInt64.ofNat_add, UInt64.ofNat_add]
      have hthree : UInt64.ofNat 3 = 3 := rfl
      rw [hthree]
      grind
    have hmlen : (UInt64.ofNat m.length).toNat = m.length :=
      UInt64.toNat_ofNat_of_lt' (by
        show m.length < 2 ^ 64
        omega)
    have hplain32 : (UInt64.ofNat m.length).toUInt32.toUInt64 = UInt64.ofNat m.length :=
      toUInt64_toUInt32 (by omega)
    have hlarge : v15MaxSize em outputMaxLen < UInt64.ofNat m.length ↔
        ¬ m.length ≤ outputMaxLen.toNat := by
      rw [UInt64.lt_iff_toNat_lt, hsize, hmlen]
      omega
    simp only [Option.isNone_some, Bool.false_eq_true, if_false, hplain, hplain32, Bool.false_or,
      decide_eq_true_eq]
    by_cases hfits : m.length ≤ outputMaxLen.toNat
    · have hnot : ¬ v15MaxSize em outputMaxLen < UInt64.ofNat m.length := by
        rw [hlarge]
        exact not_not.mpr hfits
      simp only [hnot, if_false, decide_false, hfits, if_true, hplain32, List.take_append_drop]
      rw [v15Moved_message hsplit (by omega) hem hmax]
      rfl
    · have hlt := hlarge.mpr hfits
      simp only [hlt, if_true, decide_true, hfits, if_false, hnarrow]
      rw [hzeros, ← hofNat]
      rfl

end Unpadding

/-! ## RSAES-PKCS1-v1_5 -/

variable {fRng : RsaByteRng} {input c : ByteString}

section V15

variable {ctx : MbedtlsRsaContext}

theorem v15PaddingByte_ok {rngDl k k' : Nat} {p : UInt8}
    (hok : v15PaddingByte fRng rngDl k = .ok (p, k')) : p ≠ 0 := by
  induction rngDl generalizing k with
  | zero => cases hok
  | succ rngDl ih =>
    unfold v15PaddingByte at hok
    simp only at hok
    split at hok
    · split at hok
      · cases hok
      · exact ih hok
    next hp =>
    split at hok
    · cases hok
    · cases hok
      exact hp

theorem v15Padding_ok {nbPad k : Nat} {ps : ByteString} (hok : v15Padding fRng nbPad k = .ok ps) :
    ps.length = nbPad ∧ ∀ b ∈ ps, b ≠ 0 := by
  induction nbPad generalizing k ps with
  | zero =>
    cases hok
    exact ⟨rfl, by simp⟩
  | succ nbPad ih =>
    unfold v15Padding at hok
    rcases hbyte : v15PaddingByte fRng 100 k with _ | ⟨p, k'⟩
    · rw [hbyte] at hok
      cases hok
    rw [hbyte] at hok
    simp only at hok
    rcases hrest : v15Padding fRng nbPad k' with _ | rest
    · rw [hrest] at hok
      cases hok
    rw [hrest] at hok
    cases hok
    obtain ⟨hlen, hall⟩ := ih hrest
    exact ⟨by rw [List.length_cons, hlen], List.forall_mem_cons.mpr ⟨v15PaddingByte_ok hbyte, hall⟩⟩

theorem v15_encrypted (hc : mbedtlsRsaRsaesPkcs1V15Encrypt ctx fRng input = .ok c) :
    ∃ em, em.length = ctx.len ∧ v15Decode em = some input ∧ mbedtlsRsaPublic ctx em = .ok c := by
  unfold mbedtlsRsaRsaesPkcs1V15Encrypt at hc
  simp only at hc
  split at hc
  · cases hc
  next hroom =>
  rcases hpad : v15Padding fRng (ctx.len - 3 - input.length) 0 with _ | ps
  · rw [hpad] at hc
    cases hc
  rw [hpad] at hc
  obtain ⟨hlen, hall⟩ := v15Padding_ok hpad
  refine ⟨v15Encode ps input, ?_, v15Decode_iff.mpr ⟨ps, hall, by omega, rfl⟩, hc⟩
  unfold v15Encode
  rw [List.length_cons, List.length_cons, List.length_append, List.length_cons]
  omega

theorem rsaesV15_decrypt {em : ByteString} (hem : em.length = ctx.len)
    (hc : mbedtlsRsaPublic ctx em = .ok c) (hmode : ctx.padding = .v15) (hlong : 16 ≤ ctx.len)
    (outputMaxLen : UInt64) :
    mbedtlsRsaRsaesPkcs1V15Decrypt ctx c outputMaxLen = .ok (v15Result em outputMaxLen) := by
  have hmax : ctx.len ≤ rsaMpiMaxSize := by
    unfold mbedtlsRsaPublic at hc
    split at hc
    · cases hc
    · next hctx => exact (rsaCheckContext_eq (Bool.eq_true_of_not_eq_false hctx)).1
  unfold mbedtlsRsaRsaesPkcs1V15Decrypt
  rw [if_neg (not_not.mpr hmode), if_neg (by omega), mbedtlsRsaPrivate_public hem hc]
  simp only
  unfold rsaMpiMaxSize at hmax
  rw [v15_unpadding (by omega) (by omega)]

end V15

/-! ## RSAES-OAEP -/

variable {lhash buf : ByteString}

section Buffer

variable {y : UInt8} {s d : ByteString} {hlen : Nat}

theorem slice_oaepSeed (hs : s.length = hlen) : slice (y :: (s ++ d)) 1 hlen = s := by
  unfold slice
  rw [List.drop_succ_cons, List.drop_zero, List.take_left' hs]

theorem slice_oaepDb {n : Nat} (hs : s.length = hlen) (hd : d.length = n) :
    slice (y :: (s ++ d)) (hlen + 1) n = d := by
  unfold slice
  rw [List.drop_succ_cons, List.drop_left' hs, List.take_of_length_le hd.le]

theorem storeAt_oaepSeed {s' : ByteString} (hs : s.length = s'.length) :
    storeAt (y :: (s ++ d)) 1 s' = y :: (s' ++ d) := storeAt_middle (x := [y]) rfl hs

theorem storeAt_oaepDb {d' : ByteString} (hs : s.length = hlen) (hd : d.length = d'.length) :
    storeAt (y :: (s ++ d)) (hlen + 1) d' = y :: (s ++ d') := by
  have hstore := @storeAt_middle (y :: s) d [] d' (hlen + 1) (by rw [List.length_cons, hs]) hd
  rwa [List.append_nil, List.append_nil] at hstore

end Buffer

section Oaep

variable {h : MdFunctions} {ctx : MbedtlsRsaContext}

theorem oaep_buffer {olen hlen : Nat} {seed : ByteString} (hseed : seed.length = hlen)
    (hlhash : lhash.length = hlen) (hfits : input.length + 2 * hlen + 2 ≤ olen) :
    storeAt (storeAt (storeAt (storeAt (List.replicate olen 0) 1 seed) (1 + hlen) lhash)
        (1 + hlen + hlen + (olen - 2 * hlen - 2 - input.length)) [1])
        (1 + hlen + hlen + (olen - 2 * hlen - 2 - input.length) + 1) input =
      0 :: (seed ++ oaepDb hlen lhash input olen) := by
  have hzeros : List.replicate olen (0 : UInt8) =
      [0] ++ (List.replicate hlen 0 ++ (List.replicate hlen 0 ++
        (List.replicate (olen - 2 * hlen - 2 - input.length) 0 ++
          ([0] ++ List.replicate input.length 0)))) := by
    have hone : [(0 : UInt8)] = List.replicate 1 0 := rfl
    rw [hone, List.replicate_append_replicate, List.replicate_append_replicate,
      List.replicate_append_replicate, List.replicate_append_replicate,
      List.replicate_append_replicate]
    congr 1
    omega
  have hpad : olen - input.length - 2 * hlen - 2 = olen - 2 * hlen - 2 - input.length := by omega
  unfold oaepDb
  rw [hzeros, hpad]
  generalize olen - 2 * hlen - 2 - input.length = n
  have hfirst : ∀ z, storeAt ([0] ++ (List.replicate hlen 0 ++ z)) 1 seed = [0] ++ (seed ++ z) :=
    fun z => storeAt_middle rfl (by rw [List.length_replicate, hseed])
  have hsecond : ∀ z, storeAt (([0] ++ seed) ++ (List.replicate hlen 0 ++ z)) (1 + hlen) lhash =
      ([0] ++ seed) ++ (lhash ++ z) :=
    fun z => storeAt_middle (by rw [List.length_append, hseed]; rfl)
      (by rw [List.length_replicate, hlhash])
  have hthird : ∀ z, storeAt (([0] ++ seed ++ lhash ++ List.replicate n 0) ++ ([0] ++ z))
      (1 + hlen + hlen + n) [1] = ([0] ++ seed ++ lhash ++ List.replicate n 0) ++ ([1] ++ z) :=
    fun z => storeAt_middle (by simp only [List.length_append, hseed, hlhash,
      List.length_replicate, List.length_singleton]) rfl
  have hfourth : storeAt (([0] ++ seed ++ lhash ++ List.replicate n 0 ++ [1]) ++
      (List.replicate input.length 0 ++ [])) (1 + hlen + hlen + n + 1) input =
      ([0] ++ seed ++ lhash ++ List.replicate n 0 ++ [1]) ++ (input ++ []) :=
    storeAt_middle (by simp only [List.length_append, hseed, hlhash, List.length_replicate,
      List.length_singleton]) List.length_replicate
  simp only [List.append_assoc, List.append_nil] at hsecond hthird hfourth
  rw [hfirst, hsecond, hthird, hfourth]
  rfl

theorem oaep_encrypted {fRng : RsaRng} {label : ByteString}
    (hc : mbedtlsRsaRsaesOaepEncrypt h ctx fRng label input = .ok c) :
    h.size ctx.hashId ≠ 0 ∧ ∃ em seed, OaepEncoded (h.md ctx.hashId) (h.size ctx.hashId)
      (h.md ctx.hashId label) em input ctx.len seed ∧ mbedtlsRsaPublic ctx em = .ok c := by
  unfold mbedtlsRsaRsaesOaepEncrypt computeHash at hc
  simp only at hc
  split at hc
  · cases hc
  next hsize =>
  refine ⟨hsize, ?_⟩
  split at hc
  · cases hc
  next hroom =>
  rcases hrng : fRng (h.size ctx.hashId) with _ | ⟨seed, hseed⟩
  · rw [hrng] at hc
    cases hc
  rw [hrng] at hc
  simp only at hc
  have hfits : input.length + 2 * h.size ctx.hashId + 2 ≤ ctx.len := Nat.not_lt.mp hroom
  have hlhash := MdFunctions.length_md_eq hsize label
  have hdb := length_oaepDb hlhash hfits
  have hmax : ctx.len ≤ rsaMpiMaxSize := by
    by_contra hlarge
    have hpublic : ∀ em, mbedtlsRsaPublic ctx em = .error .badInputData := by
      intro em
      unfold mbedtlsRsaPublic rsaCheckContext
      rw [decide_eq_false hlarge]
      rfl
    split at hc
    · cases hc
    · split at hc
      · cases hc
      · rw [hpublic] at hc
        cases hc
  unfold rsaMpiMaxSize at hmax
  rw [oaep_buffer hseed hlhash hfits, slice_oaepDb hseed hdb, slice_oaepSeed hseed,
    mgfMask_eq hsize (by omega)] at hc
  simp only at hc
  have hmasked : (oaepDb (h.size ctx.hashId) (h.md ctx.hashId label) input ctx.len).length =
      (Bytes.xor (oaepDb (h.size ctx.hashId) (h.md ctx.hashId label) input ctx.len)
        (mgf1 (h.md ctx.hashId) (h.size ctx.hashId) seed
          (oaepDb (h.size ctx.hashId) (h.md ctx.hashId label) input ctx.len).length)).length := by
    rw [length_xor, length_mgf1 (MdFunctions.length_md_eq hsize) (by omega), Nat.min_self]
  rw [storeAt_oaepDb hseed hmasked, slice_oaepSeed hseed, slice_oaepDb hseed (hmasked ▸ hdb),
    mgfMask_eq hsize (by omega)] at hc
  simp only at hc
  rw [storeAt_oaepSeed (by
    rw [length_xor, length_mgf1 (MdFunctions.length_md_eq hsize) (by omega), Nat.min_self])] at hc
  refine ⟨_, seed, ⟨hfits, hseed, ?_⟩, hc⟩
  unfold oaepEncode
  rw [hdb, hseed]

theorem oaepPadLoop_eq (bs : ByteString) (inPadding : Bool) (padLen : UInt64) :
    oaepPadLoop bs (ctMask inPadding) padLen =
      (ctMask (inPadding && bs.all (· = 0)),
        padLen + if inPadding then UInt64.ofNat (bs.takeWhile (· = 0)).length else 0) := by
  induction bs generalizing inPadding padLen with
  | nil => cases inPadding <;> simp [oaepPadLoop]
  | cons b bs ih =>
    unfold oaepPadLoop
    simp only
    rw [mbedtlsCtUintEq_eq, mbedtlsCtBoolAnd_mask, mbedtlsCtUintIfElse0_mask, ih]
    by_cases hb : b = 0
    · subst hb
      cases inPadding
      · simp
      have hzero : (0 : UInt8).toUInt64 = 0 := rfl
      simp only [hzero, decide_true, Bool.and_true, if_true, List.all_cons, Bool.true_and,
        List.takeWhile_cons, List.length_cons]
      rw [UInt64.ofNat_add, add_assoc, add_comm (UInt64.ofNat _)]
      rfl
    · have hword : b.toUInt64 ≠ 0 := fun hzero => hb ((byte_eq_zero b).mp hzero)
      cases inPadding <;> simp [hb, hword]

theorem drop_oaepPad (rest : ByteString) :
    rest.drop ((rest.take (rest.length - 1)).takeWhile (· = 0)).length = pssSkipZeros rest := by
  induction rest with
  | nil => rfl
  | cons b rest ih =>
    rcases rest with _ | ⟨c, rest⟩
    · rfl
    have htake : (b :: c :: rest).take ((b :: c :: rest).length - 1) =
        b :: (c :: rest).take ((c :: rest).length - 1) := rfl
    rw [htake]
    unfold pssSkipZeros
    by_cases hb : b = 0
    · rw [if_pos hb, List.takeWhile_cons_of_pos (by simpa using hb), List.length_cons,
        List.drop_succ_cons, ih]
    · rw [if_neg hb, List.takeWhile_cons_of_neg (by simpa using hb)]
      rfl

def oaepRest (hlen : Nat) (db : ByteString) : ByteString := pssSkipZeros (db.drop hlen)

theorem oaepCheck_eq {ilen hlen : Nat} {y : UInt8} {seed db : ByteString}
    (hlhash : lhash.length = hlen) (hseed : seed.length = hlen) (hdb : db.length = ilen - hlen - 1)
    (hroom : 2 * hlen + 2 ≤ ilen) (hmax : ilen < 2 ^ 32) (outputMaxLen : UInt64) :
    oaepCheck ilen hlen lhash (y :: (seed ++ db)) outputMaxLen =
      if y = 0 ∧ lhash = db.take hlen ∧ (oaepRest hlen db).headD 0 = 0x01 then
        if (oaepRest hlen db).tail.length > outputMaxLen.toNat then .error .outputTooLarge
        else .ok (oaepRest hlen db).tail
      else .error .invalidPadding := by
  have hfirst : mbedtlsCtBool ((y :: (seed ++ db)).getD 0 0).toUInt64 = ctMask (y ≠ 0) := by
    rw [mbedtlsCtBool_eq, ctMask_inj]
    show decide (y.toUInt64 ≠ 0) = _
    simp only [ne_eq, byte_eq_zero]
  have hbody : (y :: (seed ++ db)).drop (1 + hlen) = db := by
    rw [Nat.add_comm, List.drop_succ_cons, List.drop_left' hseed]
  have hlabel : slice (y :: (seed ++ db)) (1 + hlen) hlen = db.take hlen := by
    unfold slice
    rw [hbody]
  have htake : (db.take hlen).length = hlen := by
    rw [List.length_take]
    omega
  have hrestlen : (db.drop hlen).length = ilen - 2 * hlen - 1 := by
    rw [List.length_drop]
    omega
  have hdrop : (y :: (seed ++ db)).drop (1 + hlen + hlen) = db.drop hlen := by
    rw [← List.drop_drop, hbody]
  have hpads : slice (y :: (seed ++ db)) (1 + hlen + hlen) (ilen - 2 * hlen - 2) =
      (db.drop hlen).take ((db.drop hlen).length - 1) := by
    unfold slice
    rw [hdrop, hrestlen]
    rfl
  have hloop := oaepPadLoop_eq ((db.drop hlen).take ((db.drop hlen).length - 1)) true 0
  rw [if_pos rfl, UInt64.zero_add] at hloop
  have hskip := drop_oaepPad (db.drop hlen)
  have hshort : (((db.drop hlen).take ((db.drop hlen).length - 1)).takeWhile (· = 0)).length ≤
      (db.drop hlen).length - 1 := by
    have hle := (List.takeWhile_prefix (p := (· = 0))
      (l := (db.drop hlen).take ((db.drop hlen).length - 1))).length_le
    rw [List.length_take] at hle
    omega
  generalize hn : (((db.drop hlen).take ((db.drop hlen).length - 1)).takeWhile (· = 0)).length = n
    at hloop hskip hshort
  have hpadLen : (UInt64.ofNat n).toNat = n := UInt64.toNat_ofNat_of_lt' (by
    show n < 2 ^ 64
    omega)
  have hall : (y :: (seed ++ db)).drop (1 + hlen + hlen + n) = oaepRest hlen db := by
    rw [← List.drop_drop, hdrop]
    exact hskip
  have hbyte : (y :: (seed ++ db)).getD (1 + hlen + hlen + n) 0 = (oaepRest hlen db).headD 0 := by
    rw [← hall, List.getD_eq_getElem?_getD, ← List.head?_drop, List.headD_eq_head?_getD]
  have hsep : mbedtlsCtUintNe ((oaepRest hlen db).headD 0).toUInt64 0x01 =
      ctMask ((oaepRest hlen db).headD 0 ≠ 0x01) := by
    rw [mbedtlsCtUintNe_eq, ctMask_inj]
    have hone : (0x01 : UInt64) = (0x01 : UInt8).toUInt64 := rfl
    simp only [ne_eq, hone, UInt8.toUInt64_inj]
  have htail : (y :: (seed ++ db)).drop (1 + hlen + hlen + n + 1) = (oaepRest hlen db).tail := by
    rw [← List.drop_drop, hall, List.drop_one]
  have htaillen : (oaepRest hlen db).tail.length = ilen - (1 + hlen + hlen + n + 1) := by
    rw [← htail, List.length_drop, List.length_cons, List.length_append, hseed, hdb]
    omega
  have hmessage : slice (y :: (seed ++ db)) (1 + hlen + hlen + n + 1)
      (ilen - (1 + hlen + hlen + n + 1)) = (oaepRest hlen db).tail := by
    unfold slice
    rw [htail, List.take_of_length_le htaillen.le]
  have htrue : ctTrue = ctMask true := rfl
  unfold oaepCheck
  simp only
  rw [hpads, htrue, hloop]
  simp only [hpadLen]
  rw [hfirst, hlabel, mbedtlsCtMemcmp_eq (by rw [hlhash, htake]), hbyte, hsep,
    mbedtlsCtBoolOr_mask, mbedtlsCtBoolOr_mask, hmessage, ← htaillen]
  by_cases hgood : y = 0 ∧ lhash = db.take hlen ∧ (oaepRest hlen db).headD 0 = 0x01
  · rw [if_pos hgood, if_neg]
    obtain ⟨hy, hlab, hone⟩ := hgood
    rw [not_not, ctMask_eq_false, decide_eq_false (not_not.mpr hy),
      decide_eq_false (not_not.mpr hlab), decide_eq_false (not_not.mpr hone)]
    rfl
  · rw [if_neg hgood, if_pos]
    rw [ne_eq, ctMask_eq_false]
    rw [not_and_or, not_and_or] at hgood
    rcases hgood with hy | hlab | hone
    · rw [decide_eq_true hy, Bool.true_or, Bool.true_or]
      decide
    · rw [decide_eq_true hlab, Bool.or_true, Bool.true_or]
      decide
    · rw [decide_eq_true hone, Bool.or_true]
      decide

theorem oaepUnpad_eq {hashId : MbedtlsMdType} (hsize : h.size hashId ≠ 0)
    (hroom : 2 * h.size hashId + 2 ≤ buf.length) (hmax : buf.length ≤ rsaMpiMaxSize)
    (label : ByteString) (outputMaxLen : UInt64) :
    oaepUnpad h hashId label buf outputMaxLen =
      oaepCheck buf.length (h.size hashId) (h.md hashId label)
        (buf.headD 0 :: (oaepSeedOf (h.md hashId) (h.size hashId) buf ++
          oaepDbOf (h.md hashId) (h.size hashId) buf)) outputMaxLen := by
  have hmd := MdFunctions.length_md_eq hsize
  unfold rsaMpiMaxSize at hmax
  obtain ⟨y, s, d, rfl, hs⟩ : ∃ y s d, buf = y :: (s ++ d) ∧ s.length = h.size hashId := by
    rcases buf with _ | ⟨y, rest⟩
    · rw [List.length_nil] at hroom
      omega
    refine ⟨y, rest.take (h.size hashId), rest.drop (h.size hashId), ?_, ?_⟩
    · rw [List.take_append_drop]
    · rw [List.length_cons] at hroom
      rw [List.length_take]
      omega
  have hlen : (y :: (s ++ d)).length = 1 + h.size hashId + d.length := by
    rw [List.length_cons, List.length_append, hs]
    omega
  have hd : d.length = (y :: (s ++ d)).length - h.size hashId - 1 := by omega
  have hseed : oaepSeedOf (h.md hashId) (h.size hashId) (y :: (s ++ d)) =
      Bytes.xor s (mgf1 (h.md hashId) (h.size hashId) d (h.size hashId)) := by
    unfold oaepSeedOf
    rw [slice_oaepSeed hs, Nat.add_comm 1, List.drop_succ_cons, List.drop_left' hs]
  have hseedlen : s.length =
      (Bytes.xor s (mgf1 (h.md hashId) (h.size hashId) d (h.size hashId))).length := by
    rw [length_xor, length_mgf1 hmd (by omega), hs, Nat.min_self]
  have hdb : oaepDbOf (h.md hashId) (h.size hashId) (y :: (s ++ d)) =
      Bytes.xor d (mgf1 (h.md hashId) (h.size hashId)
        (oaepSeedOf (h.md hashId) (h.size hashId) (y :: (s ++ d))) d.length) := by
    unfold oaepDbOf
    rw [← hd, Nat.add_comm 1, List.drop_succ_cons, List.drop_left' hs]
  rw [hdb, hseed, List.headD_cons]
  unfold oaepUnpad computeHash
  simp only
  rw [slice_oaepSeed hs, slice_oaepDb hs hd, mgfMask_eq hsize (by omega), hs]
  simp only
  rw [storeAt_oaepSeed hseedlen, slice_oaepDb (hseedlen ▸ hs) hd, slice_oaepSeed (hseedlen ▸ hs),
    mgfMask_eq hsize (by omega), if_neg hsize]
  simp only
  rw [storeAt_oaepDb (hseedlen ▸ hs) (by rw [length_xor, length_mgf1 hmd (by omega), Nat.min_self])]

theorem oaepDb_iff {hlen : Nat} {db m : ByteString} (hlhash : lhash.length = hlen) :
    (∃ j, db = lhash ++ (List.replicate j 0 ++ 0x01 :: m)) ↔
      lhash = db.take hlen ∧ oaepRest hlen db = 0x01 :: m := by
  unfold oaepRest
  constructor
  · rintro ⟨j, rfl⟩
    rw [List.take_left' hlhash, List.drop_left' hlhash]
    exact ⟨rfl, (pssSkipZeros_iff (by decide)).mpr ⟨j, rfl⟩⟩
  · rintro ⟨hlabel, hrest⟩
    obtain ⟨j, hj⟩ := (pssSkipZeros_iff (by decide)).mp hrest
    refine ⟨j, ?_⟩
    rw [← hj, hlabel, List.take_append_drop]

theorem oaepUnpad_iff {hashId : MbedtlsMdType} (hsize : h.size hashId ≠ 0)
    (hroom : 2 * h.size hashId + 2 ≤ buf.length) (hmax : buf.length ≤ rsaMpiMaxSize)
    (label : ByteString) (outputMaxLen : UInt64) :
    (∀ m, oaepUnpad h hashId label buf outputMaxLen = .ok m ↔
      (∃ seed, OaepEncoded (h.md hashId) (h.size hashId) (h.md hashId label) buf m buf.length
        seed) ∧ m.length ≤ outputMaxLen.toNat) ∧
    (oaepUnpad h hashId label buf outputMaxLen = .error .outputTooLarge ↔
      ∃ m, (∃ seed, OaepEncoded (h.md hashId) (h.size hashId) (h.md hashId label) buf m buf.length
        seed) ∧ outputMaxLen.toNat < m.length) := by
  have hmd := MdFunctions.length_md_eq hsize
  have hlhash := hmd label
  have hencoded : ∀ m, (∃ seed, OaepEncoded (h.md hashId) (h.size hashId) (h.md hashId label) buf
      m buf.length seed) ↔ buf.headD 0 = 0 ∧
        h.md hashId label = (oaepDbOf (h.md hashId) (h.size hashId) buf).take (h.size hashId) ∧
        oaepRest (h.size hashId) (oaepDbOf (h.md hashId) (h.size hashId) buf) = 0x01 :: m := by
    intro m
    rw [oaepEncoded_iff hmd (by omega) hlhash hroom rfl, oaepDb_iff hlhash]
  have hseed : (oaepSeedOf (h.md hashId) (h.size hashId) buf).length = h.size hashId := by
    unfold oaepSeedOf
    rw [length_xor, length_mgf1 hmd (by omega), length_slice]
    omega
  have hdb : (oaepDbOf (h.md hashId) (h.size hashId) buf).length =
      buf.length - h.size hashId - 1 := by
    unfold oaepDbOf
    rw [length_xor, length_mgf1 hmd (by omega), List.length_drop]
    omega
  unfold rsaMpiMaxSize at hmax
  have hcheck := oaepCheck_eq (y := buf.headD 0) hlhash hseed hdb hroom (by omega) outputMaxLen
  rw [← oaepUnpad_eq hsize hroom hmax label outputMaxLen] at hcheck
  rw [hcheck]
  simp only [hencoded]
  generalize oaepRest (h.size hashId) (oaepDbOf (h.md hashId) (h.size hashId) buf) = rest
  split
  · next hgood =>
    obtain ⟨hy, hlab, hone⟩ := hgood
    obtain ⟨m, rfl⟩ : ∃ m, rest = 0x01 :: m := by
      rcases rest with _ | ⟨b, m⟩
      · cases hone
      · exact ⟨m, by rw [← hone]; rfl⟩
    rw [List.tail_cons]
    split
    · next hlarge =>
      refine ⟨fun m' => ⟨nofun, ?_⟩, ⟨fun _ => ⟨m, ⟨hy, hlab, rfl⟩, hlarge⟩, fun _ => rfl⟩⟩
      rintro ⟨⟨_, _, hm⟩, hfits⟩
      cases hm
      omega
    · next hfits =>
      refine ⟨fun m' => ⟨?_, ?_⟩, ⟨nofun, ?_⟩⟩
      · intro hok
        cases hok
        exact ⟨⟨hy, hlab, rfl⟩, Nat.not_lt.mp hfits⟩
      · rintro ⟨⟨_, _, hm⟩, _⟩
        cases hm
        rfl
      · rintro ⟨m', ⟨_, _, hm⟩, hlarge⟩
        cases hm
        exact absurd hlarge hfits
  · next hbad =>
    refine ⟨fun m' => ⟨nofun, ?_⟩, ⟨nofun, ?_⟩⟩
    · rintro ⟨⟨hy, hlab, rfl⟩, _⟩
      exact absurd ⟨hy, hlab, rfl⟩ hbad
    · rintro ⟨m', ⟨hy, hlab, rfl⟩, _⟩
      exact absurd ⟨hy, hlab, rfl⟩ hbad

theorem oaep_decrypt_eq (hmode : ctx.padding = .v21) (hsize : h.size ctx.hashId ≠ 0)
    (hroom : 2 * h.size ctx.hashId + 2 ≤ ctx.len) (hprivate : mbedtlsRsaPrivate ctx input = .ok buf)
    (label : ByteString) (outputMaxLen : UInt64) :
    ctx.len ≤ rsaMpiMaxSize ∧ mbedtlsRsaRsaesOaepDecrypt h ctx label input outputMaxLen =
      oaepUnpad h ctx.hashId label buf outputMaxLen := by
  obtain ⟨hlow, _⟩ := MdFunctions.size_bounds hsize
  have hmax : ctx.len ≤ rsaMpiMaxSize := by
    unfold mbedtlsRsaPrivate at hprivate
    split at hprivate
    · cases hprivate
    · next hctx => exact (rsaCheckContext_eq (Bool.eq_true_of_not_eq_false hctx)).1
  unfold mbedtlsRsaRsaesOaepDecrypt
  rw [if_neg (not_not.mpr hmode), if_neg (by omega), if_neg hsize, if_neg (by omega), hprivate]
  exact ⟨hmax, rfl⟩

end Oaep

theorem length_mbedtlsRsaPrivate {ctx : MbedtlsRsaContext}
    (hprivate : mbedtlsRsaPrivate ctx input = .ok buf) : buf.length = ctx.len := by
  unfold mbedtlsRsaPrivate at hprivate
  split at hprivate
  · cases hprivate
  simp only at hprivate
  split at hprivate
  · cases hprivate
  · cases hprivate
    exact length_toBE _ _

/-! ## The paddings -/

def rsaKey81 : MbedtlsRsaContext where
  key :=
    { N := 2 ^ 80 + 1
      publicOp := id
      privateOp := id
      publicOp_lt := fun _ hx => hx
      privateOp_lt := fun _ hx => hx
      public_private := fun _ _ => rfl
      private_public := fun _ _ => rfl }
  padding := .v15
  hashId := .none

/-- With a modulus of 11 bytes the empty message is encrypted but not decrypted. -/
theorem rsaes_v15_not_decrypted :
    mbedtlsRsaRsaesPkcs1V15Encrypt rsaKey81 (fun _ => (0, 1)) [] =
        .ok [0, 2, 1, 1, 1, 1, 1, 1, 1, 1, 0] ∧
      mbedtlsRsaRsaesPkcs1V15Decrypt rsaKey81 [0, 2, 1, 1, 1, 1, 1, 1, 1, 1, 0] 0 =
        .error .badInputData := by
  decide +kernel

/-- Both paddings are decrypted: RSAES-PKCS1-v1_5 for a modulus of at least 16 bytes and a key in
the mode `MBEDTLS_RSA_PKCS_V15`; for RSAES-OAEP, what is decrypted was encoded for the label. -/
theorem rsa_encryption_paddings (h : MdFunctions) (ctx : MbedtlsRsaContext) :
    (∀ (fRng : RsaByteRng) (input c : ByteString) (outputMaxLen : UInt64),
      mbedtlsRsaRsaesPkcs1V15Encrypt ctx fRng input = .ok c → ctx.padding = .v15 → 16 ≤ ctx.len →
      mbedtlsRsaRsaesPkcs1V15Decrypt ctx c outputMaxLen =
        let plaintextMaxSize := min outputMaxLen.toNat (ctx.len - 11)
        if input.length ≤ outputMaxLen.toNat then
          .ok { ret := 0
                olen := UInt64.ofNat input.length
                output := input ++ List.replicate (plaintextMaxSize - input.length) 0 }
        else
          .ok { ret := mbedtlsErrRsaOutputTooLarge
                olen := UInt64.ofNat plaintextMaxSize
                output := List.replicate plaintextMaxSize 0 }) ∧
    (∀ (em : ByteString) (outputMaxLen : UInt64), 11 ≤ em.length → em.length < 2 ^ 32 →
      mbedtlsCtRsaesPkcs1V15Unpadding em outputMaxLen = v15Result em outputMaxLen) ∧
    (∀ (fRng : RsaRng) (label input c : ByteString) (outputMaxLen : UInt64),
      mbedtlsRsaRsaesOaepEncrypt h ctx fRng label input = .ok c → ctx.padding = .v21 →
      mbedtlsRsaRsaesOaepDecrypt h ctx label c outputMaxLen =
        if input.length ≤ outputMaxLen.toNat then .ok input else .error .outputTooLarge) ∧
    (∀ (label input em : ByteString) (outputMaxLen : UInt64), ctx.padding = .v21 →
      h.size ctx.hashId ≠ 0 → 2 * h.size ctx.hashId + 2 ≤ ctx.len →
      mbedtlsRsaPrivate ctx input = .ok em →
      (∀ m, mbedtlsRsaRsaesOaepDecrypt h ctx label input outputMaxLen = .ok m ↔
        (∃ seed, OaepEncoded (h.md ctx.hashId) (h.size ctx.hashId) (h.md ctx.hashId label) em m
          ctx.len seed) ∧ m.length ≤ outputMaxLen.toNat) ∧
      (mbedtlsRsaRsaesOaepDecrypt h ctx label input outputMaxLen = .error .outputTooLarge ↔
        ∃ m, (∃ seed, OaepEncoded (h.md ctx.hashId) (h.size ctx.hashId) (h.md ctx.hashId label) em
          m ctx.len seed) ∧ outputMaxLen.toNat < m.length)) := by
  refine ⟨?_, ?_, ?_, ?_⟩
  · intro fRng input c outputMaxLen hc hmode hlong
    obtain ⟨em, hem, hdecode, hpublic⟩ := v15_encrypted hc
    rw [rsaesV15_decrypt hem hpublic hmode hlong]
    unfold v15Result
    rw [hdecode, hem]
    simp only
    split <;> rfl
  · intro em outputMaxLen hem hmax
    exact v15_unpadding hem hmax
  · intro fRng label input c outputMaxLen hc hmode
    obtain ⟨hsize, em, seed, hencoded, hpublic⟩ := oaep_encrypted hc
    have hfits := hencoded.fits
    have hem := (oaepDbOf_encode (MdFunctions.length_md_eq hsize) (by omega)
      (MdFunctions.length_md_eq hsize label) hencoded).1
    obtain ⟨hmax, hdecrypt⟩ := oaep_decrypt_eq hmode hsize (by omega)
      (mbedtlsRsaPrivate_public hem hpublic) label outputMaxLen
    rw [hdecrypt]
    rw [← hem] at hmax hencoded
    obtain ⟨hok, hlarge⟩ := oaepUnpad_iff hsize (by omega) hmax label outputMaxLen
    split
    · next hroom => exact (hok input).mpr ⟨⟨seed, hencoded⟩, hroom⟩
    · next hroom => exact hlarge.mpr ⟨input, ⟨seed, hencoded⟩, Nat.not_le.mp hroom⟩
  · intro label input em outputMaxLen hmode hsize hroom hprivate
    have hem := length_mbedtlsRsaPrivate hprivate
    obtain ⟨hmax, hdecrypt⟩ := oaep_decrypt_eq hmode hsize hroom hprivate label outputMaxLen
    rw [hdecrypt]
    rw [← hem] at hmax hroom ⊢
    exact oaepUnpad_iff hsize hroom hmax label outputMaxLen

end TfPsaCrypto
