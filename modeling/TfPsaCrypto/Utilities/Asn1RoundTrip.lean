import Mathlib.Data.List.DropRight
import TfPsaCrypto.Builtin.BignumBytesExact
import TfPsaCrypto.Utilities.Asn1Parse

/-!
# ASN.1 round trips

What each writing function writes is a DER element, or the buffer is too small for it; the
parsing function of the same type reads the value back.
-/

namespace TfPsaCrypto

open Bytes Der Limbs

/-! ## Writing bytes -/

variable {bytes : ByteString} {r : Asn1Written} {n : Nat}

def Asn1Writer.after (p : Asn1Writer) (bytes : ByteString) : Asn1Writer :=
  { space := p.space.take (p.space.length - bytes.length), data := bytes ++ p.data }

theorem Asn1Writer.length_after (p : Asn1Writer) (bytes : ByteString) :
    (p.after bytes).space.length = p.space.length - bytes.length := by
  simp [after]

theorem Asn1Writer.after_after (p : Asn1Writer) (bs cs : ByteString) :
    (p.after bs).after cs = p.after (cs ++ bs) := by
  unfold after
  simp only [Asn1Writer.mk.injEq, List.length_take, List.length_append, List.append_assoc, and_true]
  rw [List.take_take]
  congr 1
  omega

@[simp] theorem Asn1Writer.after_nil (p : Asn1Writer) : p.after [] = p := by
  simp [after]

theorem Asn1Writer.pushBytes_of_le {p : Asn1Writer} (h : bytes.length ≤ p.space.length)
    (k : Asn1Writer → Asn1Written) :
    p.pushBytes bytes k = k (p.after bytes) := by
  unfold pushBytes
  rw [if_neg (by omega)]
  rfl

/-- A call writes `bytes` where the buffer has room for them and returns `n`, and else says
that it has not. -/
structure Asn1Writes (p : Asn1Writer) (bytes : ByteString) (n : Int) (r : Asn1Written) : Prop where
  of_le : bytes.length ≤ p.space.length → r = (p.after bytes).returns (.ok n)
  of_lt : p.space.length < bytes.length → r.ret = .error .bufTooSmall

theorem Asn1Writes.chkAdd {p : Asn1Writer} {bs cs : ByteString} {b len : Nat} {n : Int}
    {k : Nat → Asn1Writer → Asn1Written} (h : Asn1Writes p bs b r)
    (hk : Asn1Writes (p.after bs) cs n (k (len + b) (p.after bs))) :
    Asn1Writes p (cs ++ bs) n (r.chkAdd len k) := by
  constructor
  · intro hroom
    rw [List.length_append] at hroom
    have hrest := hk.of_le (by rw [p.length_after]; omega)
    rw [h.of_le (by omega)]
    unfold Asn1Written.chkAdd Asn1Writer.returns at *
    simp only
    rw [if_neg (by omega), Int.toNat_natCast, hrest, Asn1Writer.after_after]
  · intro hsmall
    rw [List.length_append] at hsmall
    by_cases hroom : bs.length ≤ p.space.length
    · have hrest := hk.of_lt (by rw [p.length_after]; omega)
      rw [h.of_le hroom]
      unfold Asn1Written.chkAdd Asn1Writer.returns
      simp only
      rw [if_neg (by omega), Int.toNat_natCast, hrest]
    · have hret := h.of_lt (by omega)
      unfold Asn1Written.chkAdd
      split
      · exact hret
      · next n heq =>
        rw [heq] at hret
        exact Except.noConfusion rfl rfl (heq_of_eq hret)

theorem Asn1Writes.pushBytes {p : Asn1Writer} {bs cs : ByteString} {n : Int}
    {k : Asn1Writer → Asn1Written} (hroom : bs.length ≤ p.space.length)
    (hk : Asn1Writes (p.after bs) cs n (k (p.after bs))) :
    Asn1Writes p (cs ++ bs) n (p.pushBytes bs k) := by
  rw [Asn1Writer.pushBytes_of_le hroom]
  constructor
  · intro hfits
    rw [List.length_append] at hfits
    rw [hk.of_le (by rw [p.length_after]; omega), Asn1Writer.after_after]
  · intro hsmall
    rw [List.length_append] at hsmall
    exact hk.of_lt (by rw [p.length_after]; omega)

theorem asn1Writes_nil (p : Asn1Writer) (n : Int) : Asn1Writes p [] n (p.returns (.ok n)) := by
  constructor
  · intro _
    rw [p.after_nil]
  · intro hsmall
    exact absurd hsmall (Nat.not_lt_zero _)

theorem Asn1Writes.byte {p : Asn1Writer} {b : UInt8} {n : Int} (hroom : 1 ≤ p.space.length) :
    Asn1Writes p [b] n (p.pushBytes [b] fun p => p.returns (.ok n)) := by
  rw [← List.nil_append [b]]
  exact .pushBytes hroom (asn1Writes_nil _ _)

theorem Asn1Writes.of_small {p : Asn1Writer} {n : Int} (h : p.space.length < bytes.length) :
    Asn1Writes p bytes n (p.returns (.error .bufTooSmall)) := by
  constructor
  · intro hroom
    omega
  · intro _
    rfl

theorem cInt_of_lt (h : n < 2 ^ 31) : cInt n = n := by
  unfold cInt
  rw [Int.bmod_def]
  split <;> omega

/-! ## Length and tag -/

variable {tag : UInt8}
variable {contents : ByteString}

theorem asn1LenBytes_eq {fuel l : Nat} (h : byteCount l ≤ fuel) :
    asn1LenBytes fuel l = byteCount l := by
  induction fuel generalizing l with
  | zero =>
    rw [asn1LenBytes]
    omega
  | succ fuel ih =>
    unfold asn1LenBytes
    split
    · next hzero =>
      subst hzero
      rfl
    · next hne =>
      have hcount := byteCount_of_pos (Nat.pos_of_ne_zero hne)
      rw [ih (by omega), hcount, Nat.add_comm]

theorem unsignedBytes_of_pos (h : 0 < n) : unsignedBytes n = toBE (byteCount n) n := by
  have hpos : 0 < byteCount n := by
    rw [byteCount_of_pos h]
    omega
  unfold unsignedBytes
  rw [Nat.max_eq_right hpos]

theorem unsignedBytes_div (h : n / 256 ≠ 0) :
    unsignedBytes n = unsignedBytes (n / 256) ++ [UInt8.ofNat n] := by
  have hn : 0 < n := by omega
  rw [unsignedBytes_of_pos hn, unsignedBytes_of_pos (Nat.pos_of_ne_zero h), byteCount_of_pos hn,
    toBE_add, Nat.pow_one]
  rfl

theorem unsignedBytes_of_lt (h : n / 256 = 0) : unsignedBytes n = [UInt8.ofNat n] := by
  have hcount : byteCount n ≤ 1 := by
    rw [byteCount_le, Nat.pow_one]
    omega
  unfold unsignedBytes
  rw [Nat.max_eq_left hcount]
  rfl

theorem asn1WriteLenLoop_eq (k : Asn1Writer → Asn1Written) {fuel : Nat} {p : Asn1Writer}
    {len : Nat}
    (hfuel : (unsignedBytes len).length ≤ fuel)
    (hroom : (unsignedBytes len).length ≤ p.space.length) :
    asn1WriteLenLoop k fuel p len = k (p.after (unsignedBytes len)) := by
  induction fuel generalizing p len with
  | zero =>
    rw [unsignedBytes, length_toBE] at hfuel
    omega
  | succ fuel ih =>
    unfold asn1WriteLenLoop
    by_cases hdiv : len / 256 = 0
    · rw [unsignedBytes_of_lt hdiv] at hroom ⊢
      rw [Asn1Writer.pushBytes_of_le hroom, if_pos hdiv]
    rw [unsignedBytes_div hdiv, List.length_append, List.length_singleton] at hfuel hroom
    have hsingle : [UInt8.ofNat len].length ≤ p.space.length := by
      rw [List.length_singleton]
      omega
    rw [Asn1Writer.pushBytes_of_le hsingle, if_neg hdiv,
      ih (by omega) (by rw [p.length_after, List.length_singleton]; omega),
      Asn1Writer.after_after, ← unsignedBytes_div hdiv]

theorem mbedtlsAsn1WriteLen_writes {len : Nat} (hlen : len ≤ 0xFFFFFFFF) (p : Asn1Writer) :
    Asn1Writes p (lengthBytes len) (lengthBytes len).length (mbedtlsAsn1WriteLen p len) := by
  have hcount : byteCount len ≤ 4 := by
    rw [byteCount_le]
    omega
  have hrequired : (1 + if len ≥ 0x80 then asn1LenBytes 8 len else 0) =
      (lengthBytes len).length := by
    rw [length_lengthBytes, asn1LenBytes_eq (by omega)]
    split <;> split <;> omega
  unfold mbedtlsAsn1WriteLen
  rw [if_neg (by omega)]
  simp only [hrequired]
  split
  · next hsmall => exact Asn1Writes.of_small hsmall
  next hroom =>
  by_cases hshort : len < 128
  · have hsmall : len / 256 = 0 := by omega
    have hbytes : lengthBytes len = unsignedBytes len := by
      rw [unsignedBytes_of_lt hsmall, lengthBytes, if_pos hshort]
    have hone : (lengthBytes len).length = 1 := by
      rw [lengthBytes, if_pos hshort]
      rfl
    rw [hone] at hroom ⊢
    rw [hbytes, asn1WriteLenLoop_eq _ (by rw [← hbytes]; omega) (by rw [← hbytes]; omega),
      if_neg (by omega)]
    constructor
    · intro _
      rfl
    · intro hlt
      rw [← hbytes] at hlt
      omega
  · have hbytes : lengthBytes len =
        [UInt8.ofNat (0x80 + byteCount len)] ++ unsignedBytes len := by
      rw [unsignedBytes_of_pos (by omega), lengthBytes, if_neg hshort]
      rfl
    have hlength : (unsignedBytes len).length = byteCount len := by
      rw [unsignedBytes_of_pos (by omega), length_toBE]
    have hpos := byteCount_of_pos (show 0 < len by omega)
    have hfirst : 0x80 + (1 + byteCount len) - 1 = 0x80 + byteCount len := by omega
    rw [hbytes, List.length_append, hlength, List.length_singleton] at hroom ⊢
    have hfits : (unsignedBytes len).length ≤ p.space.length := by omega
    rw [asn1WriteLenLoop_eq _ (by omega) (by omega), if_pos (by omega), hfirst,
      ← Asn1Writer.pushBytes_of_le hfits
        (fun p => p.pushBytes [UInt8.ofNat (0x80 + byteCount len)] fun p =>
          p.returns (.ok ↑(1 + byteCount len)))]
    apply Asn1Writes.pushBytes hfits
    apply Asn1Writes.byte
    rw [p.length_after]
    omega

theorem mbedtlsAsn1WriteTag_writes (p : Asn1Writer) (tag : UInt8) :
    Asn1Writes p [tag] (1 : Nat) (mbedtlsAsn1WriteTag p tag) := by
  unfold mbedtlsAsn1WriteTag
  split
  · next hsmall => exact Asn1Writes.of_small hsmall
  · next hroom =>
    exact Asn1Writes.byte (by omega)

theorem mbedtlsAsn1WriteLenAndTag_writes {len : Nat} (hlen : len ≤ 0xFFFFFFFF) (p : Asn1Writer)
    (tag : UInt8) :
    Asn1Writes p (tag :: lengthBytes len) (cInt (len + (lengthBytes len).length + 1))
      (mbedtlsAsn1WriteLenAndTag p len tag) := by
  rw [← List.singleton_append]
  apply Asn1Writes.chkAdd (mbedtlsAsn1WriteLen_writes hlen p)
  rw [← List.nil_append [tag]]
  exact Asn1Writes.chkAdd (mbedtlsAsn1WriteTag_writes _ tag) (asn1Writes_nil _ _)

theorem asn1Writes_element {p : Asn1Writer} (hsize : (element tag contents).length < 2 ^ 31)
    (hroom : contents.length ≤ p.space.length) :
    Asn1Writes p (element tag contents) (element tag contents).length
      (mbedtlsAsn1WriteLenAndTag (p.after contents) contents.length tag) := by
  have hlength := length_element tag contents
  have hshort : contents.length ≤ 0xFFFFFFFF := by omega
  have hwrites := mbedtlsAsn1WriteLenAndTag_writes hshort (p.after contents) tag
  have hn : contents.length + (lengthBytes contents.length).length + 1 =
      (element tag contents).length := by omega
  rw [hn, cInt_of_lt hsize] at hwrites
  have hpush := Asn1Writes.pushBytes
    (k := fun p => mbedtlsAsn1WriteLenAndTag p contents.length tag) hroom hwrites
  rwa [Asn1Writer.pushBytes_of_le hroom] at hpush

theorem asn1Writes_element_small {p : Asn1Writer} {n : Int}
    (hsmall : p.space.length < contents.length) (hret : r.ret = .error .bufTooSmall) :
    Asn1Writes p (element tag contents) n r := by
  have hlength := length_element tag contents
  constructor
  · intro hroom
    omega
  · intro _
    exact hret

/-! ## Integers -/

theorem and_0x80_iff (b : UInt8) : (b &&& 0x80 = 0 ↔ b.toNat < 128) := by
  have hall : ∀ n < 256, (UInt8.ofNat n &&& 0x80 = 0 ↔ n < 128) := by decide +kernel
  have hb := hall b.toNat b.toNat_lt
  rwa [UInt8.ofNat_toNat] at hb

theorem topBit_after {p : Asn1Writer} (hne : bytes ≠ []) :
    (p.after bytes).topBit = true ↔ 128 ≤ (bytes.headD 0).toNat := by
  have hhead : (p.after bytes).data.headD 0 = bytes.headD 0 := by
    rcases bytes with _ | ⟨b, bs⟩
    · exact absurd rfl hne
    · rfl
  unfold Asn1Writer.topBit
  rw [hhead, bne_iff_ne, ne_eq, and_0x80_iff, Nat.not_lt]

theorem unsignedBytes_ne_nil (n : Nat) : unsignedBytes n ≠ [] := by
  have hlen : (unsignedBytes n).length = max 1 (byteCount n) := length_toBE _ _
  intro hnil
  rw [hnil, List.length_nil] at hlen
  omega

theorem length_unsignedBytes_le (n : Nat) :
    (unsignedBytes n).length ≤ (integerBytes n).length := by
  rw [length_integerBytes, unsignedBytes, length_toBE, byteCount]
  omega

theorem asn1Writes_integer {p : Asn1Writer} {n : Nat} {tag : UInt8} {r : Asn1Written}
    (hsize : (element tag (integerBytes n)).length < 2 ^ 31)
    (hroom : (unsignedBytes n).length ≤ p.space.length)
    (htop : 128 ≤ ((unsignedBytes n).headD 0).toNat →
      r = if (p.after (unsignedBytes n)).space.length < 1 then
            (p.after (unsignedBytes n)).returns (.error .bufTooSmall)
          else
            (p.after (unsignedBytes n)).pushBytes [0x00] fun p =>
              mbedtlsAsn1WriteLenAndTag p ((unsignedBytes n).length + 1) tag)
    (hlow : ((unsignedBytes n).headD 0).toNat < 128 →
      r = mbedtlsAsn1WriteLenAndTag (p.after (unsignedBytes n)) (unsignedBytes n).length tag) :
    Asn1Writes p (element tag (integerBytes n)) (element tag (integerBytes n)).length r := by
  by_cases hbit : 128 ≤ ((unsignedBytes n).headD 0).toNat
  · have hbytes : integerBytes n = [0x00] ++ unsignedBytes n := by
      rw [integerBytes_eq, if_pos hbit]
      rfl
    have hlen : (integerBytes n).length = (unsignedBytes n).length + 1 := by
      rw [hbytes]
      rfl
    rw [htop hbit]
    split
    · next hsmall =>
      rw [p.length_after] at hsmall
      apply asn1Writes_element_small _ rfl
      omega
    · next hspace =>
      rw [p.length_after] at hspace
      rw [Asn1Writer.pushBytes_of_le (by rw [p.length_after, List.length_singleton]; omega),
        Asn1Writer.after_after, ← hbytes, ← hlen]
      exact asn1Writes_element hsize (by omega)
  · have hbytes : integerBytes n = unsignedBytes n := by
      rw [integerBytes_eq, if_neg hbit]
    rw [hlow (Nat.not_le.mp hbit), ← hbytes]
    rw [hbytes] at hsize ⊢
    exact asn1Writes_element hsize hroom

theorem asn1WriteIntLoop_eq (k : Nat → Asn1Writer → Asn1Written) {fuel : Nat} {p : Asn1Writer}
    {len val : Nat} (hfuel : (unsignedBytes val).length ≤ fuel) :
    if (unsignedBytes val).length ≤ p.space.length then
      asn1WriteIntLoop k fuel p len val =
        k (len + (unsignedBytes val).length) (p.after (unsignedBytes val))
    else (asn1WriteIntLoop k fuel p len val).ret = .error .bufTooSmall := by
  induction fuel generalizing p len val with
  | zero =>
    rw [unsignedBytes, length_toBE] at hfuel
    omega
  | succ fuel ih =>
    have hlow : UInt8.ofNat ((val : Int) % 256).toNat = UInt8.ofNat val := by
      apply UInt8.toNat_inj.mp
      rw [UInt8.toNat_ofNat', UInt8.toNat_ofNat']
      omega
    by_cases hspace : p.space.length < 1
    · have hpos : 0 < (unsignedBytes val).length :=
        List.length_pos_iff.mpr (unsignedBytes_ne_nil val)
      rw [if_neg (by omega)]
      unfold asn1WriteIntLoop
      rw [if_pos hspace]
      rfl
    · have hsingle : [UInt8.ofNat val].length ≤ p.space.length := by
        rw [List.length_singleton]
        omega
      have hstep : asn1WriteIntLoop k (fuel + 1) p len val =
          if (val : Int) / 256 > 0 then
            asn1WriteIntLoop k fuel (p.after [UInt8.ofNat val]) (len + 1) ((val : Int) / 256)
          else k (len + 1) (p.after [UInt8.ofNat val]) := by
        rw [asn1WriteIntLoop, if_neg hspace, hlow, Asn1Writer.pushBytes_of_le hsingle]
      rw [hstep]
      by_cases hdiv : val / 256 = 0
      · rw [unsignedBytes_of_lt hdiv, if_pos hsingle, if_neg (by omega)]
        rfl
      have hfuel' : (unsignedBytes (val / 256)).length ≤ fuel := by
        rw [unsignedBytes_div hdiv, List.length_append, List.length_singleton] at hfuel
        omega
      have hrec := @ih (p.after [UInt8.ofNat val]) (len + 1) (val / 256) hfuel'
      have hcast : (val : Int) / 256 = ((val / 256 : Nat) : Int) := by omega
      have hpos : ((val / 256 : Nat) : Int) > 0 := by omega
      rw [hcast, if_pos hpos, unsignedBytes_div hdiv, List.length_append, List.length_singleton]
      rw [p.length_after, List.length_singleton] at hrec
      split
      · next hroom =>
        rw [if_pos (by omega)] at hrec
        rw [hrec, Asn1Writer.after_after]
        congr 1
        omega
      · next hsmall =>
        rw [if_neg (by omega)] at hrec
        exact hrec

theorem mbedtlsAsn1WriteInt_writes {val : Nat} (hval : val < 2 ^ 31) (p : Asn1Writer) :
    Asn1Writes p (element mbedtlsAsn1Integer (integerBytes val))
      (element mbedtlsAsn1Integer (integerBytes val)).length (mbedtlsAsn1WriteInt p val) := by
  have hcount : (unsignedBytes val).length ≤ 4 := by
    have hle : byteCount val ≤ 4 := by
      rw [byteCount_le]
      omega
    rw [unsignedBytes, length_toBE]
    omega
  have hsize : val.size ≤ 31 := Nat.size_le.mpr hval
  have helement : (element mbedtlsAsn1Integer (integerBytes val)).length < 2 ^ 31 := by
    have hshort : val.size / 8 + 1 < 128 := by omega
    rw [length_element, length_lengthBytes, length_integerBytes, if_pos hshort]
    omega
  have hloop := @asn1WriteIntLoop_eq (fun len p =>
    if p.topBit then
      if p.space.length < 1 then
        p.returns (.error .bufTooSmall)
      else
        p.pushBytes [0x00] fun p => mbedtlsAsn1WriteLenAndTag p (len + 1) mbedtlsAsn1Integer
    else
      mbedtlsAsn1WriteLenAndTag p len mbedtlsAsn1Integer) 4 p 0 val hcount
  unfold mbedtlsAsn1WriteInt asn1WriteTaggedInt
  split at hloop
  · next hroom =>
    rw [hloop, Nat.zero_add]
    apply asn1Writes_integer helement hroom
    · intro htop
      rw [if_pos ((topBit_after (unsignedBytes_ne_nil val)).mpr htop)]
    · intro hlow
      rw [if_neg]
      rw [topBit_after (unsignedBytes_ne_nil val)]
      omega
  · next hsmall =>
    apply asn1Writes_element_small _ hloop
    have hle := length_unsignedBytes_le val
    omega

theorem mbedtlsAsn1WriteInteger_writes {integer : ByteString}
    (hzeros : (integer.takeWhile (· = 0)).length < 2 ^ 32)
    (hsize : (element mbedtlsAsn1Integer (integerBytes (ofBE integer))).length < 2 ^ 31)
    (p : Asn1Writer) :
    Asn1Writes { space := List.replicate p.space.length 0, data := p.data }
      (element mbedtlsAsn1Integer (integerBytes (ofBE integer)))
      (element mbedtlsAsn1Integer (integerBytes (ofBE integer))).length
      (mbedtlsAsn1WriteInteger p integer) := by
  have hstrip := dropWhile_zero integer
  generalize hv : ofBE integer = v at hstrip hsize ⊢
  have hspace : (List.replicate p.space.length (0 : UInt8)).length = p.space.length :=
    List.length_replicate
  have hcontents := length_unsignedBytes_le v
  have hlength : (unsignedBytes v).length = max 1 (byteCount v) := length_toBE _ _
  unfold mbedtlsAsn1WriteInteger
  rw [if_neg (by omega)]
  simp only [hstrip, length_toBE, hspace]
  split
  · next hsmall =>
    apply asn1Writes_element_small _ rfl
    rw [hspace]
    omega
  · next hroom =>
    split
    · next hzero =>
      have hv0 : v = 0 := by
        have hlt0 := lt_pow_byteCount v
        rw [hzero] at hlt0
        omega
      subst hv0
      split
      · next hnone =>
        apply asn1Writes_element_small _ rfl
        rw [hspace]
        omega
      · next hone =>
        have hdrop : (List.replicate p.space.length (0 : UInt8)).drop
            ((List.replicate p.space.length (0 : UInt8)).length - 1) = [0] := by
          rw [hspace, List.drop_replicate, Nat.sub_sub_self (by omega)]
          rfl
        have hmove : ({ space := List.replicate p.space.length 0, data := p.data } :
              Asn1Writer).moveBack 1 =
            ({ space := List.replicate p.space.length 0, data := p.data } :
              Asn1Writer).after (unsignedBytes 0) := by
          unfold Asn1Writer.moveBack Asn1Writer.after
          rw [hdrop]
          rfl
        have hbytes : integerBytes 0 = unsignedBytes 0 := rfl
        rw [hmove]
        rw [hbytes] at hsize ⊢
        apply asn1Writes_element hsize
        rw [hspace, hlength, byteCount_zero]
        omega
    · next hne =>
      have hpos : 0 < v := by
        rw [Nat.pos_iff_ne_zero]
        rintro rfl
        exact hne byteCount_zero
      rw [← unsignedBytes_of_pos hpos]
      have hcount : byteCount v = (unsignedBytes v).length := by
        rw [unsignedBytes_of_pos hpos, length_toBE]
      rw [hcount] at hroom ⊢
      have hfits : (unsignedBytes v).length ≤
          (List.replicate p.space.length (0 : UInt8)).length := by omega
      rw [Asn1Writer.pushBytes_of_le hfits]
      apply asn1Writes_integer hsize hfits
      · intro htop
        rw [if_pos ((topBit_after (unsignedBytes_ne_nil v)).mpr htop)]
      · intro hlow
        rw [if_neg]
        rw [topBit_after (unsignedBytes_ne_nil v)]
        omega

theorem mbedtlsAsn1WriteMpi_writes {w : Nat} (hw : 0 < ciL w) (hbits : w = 8 * ciL w)
    {X : MbedtlsMpi w} (hsign : X.s = 1 ∨ X.abs = 0)
    (hsize : (element mbedtlsAsn1Integer (integerBytes X.abs)).length < 2 ^ 31) (p : Asn1Writer) :
    Asn1Writes p (element mbedtlsAsn1Integer (integerBytes X.abs))
      (element mbedtlsAsn1Integer (integerBytes X.abs)).length (mbedtlsAsn1WriteMpi p X) := by
  have hcount : mbedtlsMpiSize X = byteCount X.abs := by
    unfold mbedtlsMpiSize byteCount
    rw [mbedtlsMpiBitlen_eq]
  have hlen : (if mbedtlsMpiSize X = 0 then 1 else mbedtlsMpiSize X) =
      (unsignedBytes X.abs).length := by
    rw [hcount, unsignedBytes, length_toBE]
    split <;> omega
  have hwrite : mbedtlsMpiWriteBinary X (unsignedBytes X.abs).length =
      .ok (unsignedBytes X.abs) := by
    have hlt : X.abs < 256 ^ (unsignedBytes X.abs).length := by
      rw [unsignedBytes, length_toBE]
      exact byteCount_le.mp (Nat.le_max_right _ _)
    unfold mbedtlsMpiWriteBinary
    rw [mbedtlsMpiCoreWriteBe_of_lt hw hbits hlt, unsignedBytes, length_toBE]
    rfl
  have hcontents := length_unsignedBytes_le X.abs
  unfold mbedtlsAsn1WriteMpi
  simp only [hlen]
  split
  · next hsmall =>
    apply asn1Writes_element_small _ rfl
    omega
  next hroom =>
  simp only [hwrite]
  rw [Asn1Writer.pushBytes_of_le (by omega)]
  apply asn1Writes_integer hsize (by omega)
  · intro htop
    have hs : X.s = 1 := by
      rcases hsign with hs | hzero
      · exact hs
      · rw [hzero] at htop
        exact absurd htop (by decide)
    rw [if_pos ⟨hs, (topBit_after (unsignedBytes_ne_nil _)).mpr htop⟩]
    rfl
  · intro hlow
    rw [if_neg]
    · rfl
    · rintro ⟨_, htop⟩
      rw [topBit_after (unsignedBytes_ne_nil _)] at htop
      omega

/-! ## Bit strings -/

variable {buf : ByteString}

/-- Bit `i` of a byte string, the first bit of a byte being its highest. -/
def bitAt (buf : ByteString) (i : Nat) : Bool := (buf.getD (i / 8) 0).toNat.testBit (7 - i % 8)

/-- The first `n` bits. -/
def bitList (buf : ByteString) (n : Nat) : List Bool := (List.range n).map (bitAt buf)

/-- The bytes of the first `bits` bits, the bits after them cleared. -/
def maskedBytes (buf : ByteString) (bits : Nat) : ByteString :=
  if bits = 0 then []
  else
    let byteLen := (bits + 7) / 8
    buf.take (byteLen - 1) ++
      [buf.getD (byteLen - 1) 0 &&& ~~~UInt8.ofNat (2 ^ (byteLen * 8 - bits) - 1)]

theorem length_maskedBytes {bits : Nat} (h : bits ≤ 8 * buf.length) :
    (maskedBytes buf bits).length = (bits + 7) / 8 := by
  unfold maskedBytes
  split
  · next hzero =>
    subst hzero
    rfl
  · simp only [List.length_append, List.length_take, List.length_singleton]
    omega

theorem bitAt_maskedBytes {bits i : Nat} (h : bits ≤ 8 * buf.length) (hi : i < bits) :
    bitAt (maskedBytes buf bits) i = bitAt buf i := by
  have hmask : ∀ u < 8, ∀ j < 8, u ≤ j →
      (~~~UInt8.ofNat (2 ^ u - 1)).toNat.testBit j = true := by decide +kernel
  have hlen : (buf.take ((bits + 7) / 8 - 1)).length = (bits + 7) / 8 - 1 := by
    rw [List.length_take]
    omega
  unfold bitAt maskedBytes
  rw [if_neg (by omega)]
  rcases Nat.lt_or_ge (i / 8) ((bits + 7) / 8 - 1) with hlow | hlast
  · have htake : (buf.take ((bits + 7) / 8 - 1) ++ [buf.getD ((bits + 7) / 8 - 1) 0 &&&
        ~~~UInt8.ofNat (2 ^ ((bits + 7) / 8 * 8 - bits) - 1)]).getD (i / 8) 0 =
        buf.getD (i / 8) 0 := by
      simp only [List.getD_eq_getElem?_getD]
      rw [List.getElem?_append_left (by omega), List.getElem?_take_of_lt hlow]
    rw [htake]
  · have hindex : i / 8 = (bits + 7) / 8 - 1 := by omega
    have hget : (buf.take ((bits + 7) / 8 - 1) ++ [buf.getD ((bits + 7) / 8 - 1) 0 &&&
        ~~~UInt8.ofNat (2 ^ ((bits + 7) / 8 * 8 - bits) - 1)]).getD (i / 8) 0 =
        buf.getD (i / 8) 0 &&& ~~~UInt8.ofNat (2 ^ ((bits + 7) / 8 * 8 - bits) - 1) := by
      rw [hindex, List.getD_eq_getElem?_getD, List.getElem?_append_right (by omega), hlen,
        Nat.sub_self]
      rfl
    rw [hget, UInt8.toNat_and, Nat.testBit_and, hmask _ (by omega) _ (by omega) (by omega),
      Bool.and_true]

theorem bitList_maskedBytes {bits : Nat} (h : bits ≤ 8 * buf.length) :
    bitList (maskedBytes buf bits) bits = bitList buf bits := by
  apply List.map_congr_left
  intro i hi
  rw [List.mem_range] at hi
  exact bitAt_maskedBytes h hi

def bitstringContents (buf : ByteString) (bits : Nat) : ByteString :=
  UInt8.ofNat ((bits + 7) / 8 * 8 - bits) :: maskedBytes buf bits

theorem mbedtlsAsn1WriteBitstring_writes {bits : Nat} (h : bits ≤ 8 * buf.length)
    (hsize : (element mbedtlsAsn1BitString (bitstringContents buf bits)).length < 2 ^ 31)
    (p : Asn1Writer) :
    Asn1Writes p (element mbedtlsAsn1BitString (bitstringContents buf bits))
      (element mbedtlsAsn1BitString (bitstringContents buf bits)).length
      (mbedtlsAsn1WriteBitstring p buf bits) := by
  have hcontents : (bitstringContents buf bits).length = (bits + 7) / 8 + 1 := by
    rw [bitstringContents, List.length_cons, length_maskedBytes h]
  have helement := length_element mbedtlsAsn1BitString (bitstringContents buf bits)
  have hbyteLen : (bits + 7) % 2 ^ 64 / 8 = (bits + 7) / 8 := by omega
  have hunused : ((bits + 7) / 8 * 8 + 2 ^ 64 - bits) % 2 ^ 64 = (bits + 7) / 8 * 8 - bits := by
    omega
  unfold mbedtlsAsn1WriteBitstring
  simp only [hbyteLen, hunused]
  split
  · next hsmall =>
    apply asn1Writes_element_small _ rfl
    omega
  next hroom =>
  rw [← hcontents]
  have hbody : ∀ k : Asn1Writer → Asn1Written,
      (if (bits + 7) / 8 > 0 then
        p.pushBytes [buf.getD ((bits + 7) / 8 - 1) 0 &&&
          ~~~UInt8.ofNat (2 ^ ((bits + 7) / 8 * 8 - bits) - 1)] fun p =>
          p.pushBytes (buf.take ((bits + 7) / 8 - 1)) k
      else k p) = k (p.after (maskedBytes buf bits)) := by
    intro k
    unfold maskedBytes
    split
    · next hpos =>
      rw [if_neg (by omega), Asn1Writer.pushBytes_of_le (by
        rw [List.length_singleton]; omega), Asn1Writer.pushBytes_of_le (by
        rw [p.length_after, List.length_take, List.length_singleton]; omega),
        Asn1Writer.after_after]
    · rw [if_pos (by omega), p.after_nil]
  rw [hbody, Asn1Writer.pushBytes_of_le (by
    rw [p.length_after, length_maskedBytes h, List.length_singleton]; omega),
    Asn1Writer.after_after]
  exact asn1Writes_element hsize (by omega)

structure Trimmed (buf : ByteString) (bits t : Nat) : Prop where
  le : t ≤ bits
  zeros : ∀ i, t ≤ i → i < bits → bitAt buf i = false
  last : t = 0 ∨ bitAt buf (t - 1) = true

theorem Trimmed.bitList {bits t : Nat} (h : Trimmed buf bits t) :
    bitList buf t = (bitList buf bits).rdropWhile (· = false) := by
  obtain ⟨k, rfl⟩ := Nat.exists_eq_add_of_le h.le
  induction k with
  | zero =>
    unfold TfPsaCrypto.bitList
    rcases h.last with hzero | hlast
    · rw [hzero]
      rfl
    rcases Nat.eq_zero_or_pos t with hzero | hpos
    · rw [hzero]
      rfl
    · obtain ⟨t, rfl⟩ : ∃ t', t = t' + 1 := ⟨t - 1, by omega⟩
      rw [Nat.add_sub_cancel] at hlast
      rw [Nat.add_zero, List.range_succ, List.map_append, List.map_singleton,
        List.rdropWhile_concat_neg _ _ _ (by simp [hlast])]
  | succ k ih =>
    have hzero := h.zeros (t + k) (by omega) (by omega)
    have hrec := ih ⟨by omega, fun i hi hi' => h.zeros i hi (by omega), h.last⟩
    rw [hrec]
    unfold TfPsaCrypto.bitList
    rw [← Nat.add_assoc, List.range_succ, List.map_append, List.map_singleton,
      List.rdropWhile_concat_pos _ _ _ (by simp [hzero])]

theorem asn1TrimLoop_trimmed (buf : ByteString) {fuel : Nat} {bits curByte : Nat} {shifted : UInt8}
    (hfuel : bits ≤ fuel) (hpos : 0 < bits) (hcur : curByte = (bits - 1) / 8)
    (hshifted : shifted.toNat = (buf.getD curByte 0).toNat / 2 ^ (7 - (bits - 1) % 8)) :
    Trimmed buf bits (asn1TrimLoop buf fuel bits curByte shifted) := by
  induction fuel generalizing bits curByte shifted with
  | zero => omega
  | succ fuel ih =>
    have hbit : shifted &&& 0x1 ≠ 0 ↔ bitAt buf (bits - 1) = true := by
      have hand : (shifted &&& 0x1).toNat = shifted.toNat % 2 := by
        rw [UInt8.toNat_and]
        exact Nat.and_two_pow_sub_one_eq_mod _ 1
      unfold bitAt
      rw [Nat.testBit_eq_decide_div_mod_eq, decide_eq_true_eq, ← hcur, ← hshifted]
      constructor
      · intro hne
        by_contra hmod
        apply hne
        apply UInt8.toNat_inj.mp
        rw [hand]
        show _ = 0
        omega
      · intro hmod hzero
        have hval := congrArg UInt8.toNat hzero
        rw [hand] at hval
        have hval' : shifted.toNat % 2 = 0 := hval
        omega
    have hextend : ∀ t, bitAt buf (bits - 1) = false → Trimmed buf (bits - 1) t →
        Trimmed buf bits t := by
      intro t hzero ht
      refine ⟨by have := ht.le; omega, ?_, ht.last⟩
      intro i hi hi'
      rcases Nat.lt_or_ge i (bits - 1) with hlt | hge
      · exact ht.zeros i hi hlt
      · have heq : i = bits - 1 := by omega
        rw [heq]
        exact hzero
    unfold asn1TrimLoop
    simp only
    split
    · next hset => exact ⟨Nat.le_refl _, fun i hi hi' => by omega, Or.inr (hbit.mp hset)⟩
    next hclear =>
    rw [hbit, Bool.not_eq_true] at hclear
    split
    · next hone =>
      apply hextend _ hclear
      exact ⟨Nat.zero_le _, fun i _ hi => by omega, Or.inl rfl⟩
    next hmore =>
    apply hextend _ hclear
    split
    · next hbyte =>
      have hmod : 7 - (bits - 1 - 1) % 8 = 0 := by omega
      apply ih (by omega) (by omega) (by omega)
      rw [hmod, Nat.pow_zero, Nat.div_one]
    · next hsame =>
      apply ih (by omega) (by omega) (by omega)
      have hmod : 7 - (bits - 1 - 1) % 8 = 7 - (bits - 1) % 8 + 1 := by omega
      rw [hmod, Nat.pow_succ, ← Nat.div_div_eq_div_mul, ← hshifted,
        UInt8.toNat_shiftRight, Nat.shiftRight_eq_div_pow]
      rfl

def namedBits (buf : ByteString) (bits : Nat) : Nat :=
  if bits ≠ 0 then
    asn1TrimLoop buf bits bits ((bits + 7) / 8 - 1)
      (buf.getD ((bits + 7) / 8 - 1) 0 >>> UInt8.ofNat ((bits + 7) / 8 * 8 - bits))
  else bits

theorem namedBits_trimmed (buf : ByteString) (bits : Nat) :
    Trimmed buf bits (namedBits buf bits) := by
  unfold namedBits
  split
  · next hne =>
    apply asn1TrimLoop_trimmed buf (Nat.le_refl _) (Nat.pos_of_ne_zero hne) (by omega)
    have hshift : (UInt8.ofNat ((bits + 7) / 8 * 8 - bits)).toNat % 8 = 7 - (bits - 1) % 8 := by
      rw [UInt8.toNat_ofNat']
      omega
    rw [UInt8.toNat_shiftRight, hshift, Nat.shiftRight_eq_div_pow]
  · next hzero =>
    rw [not_not] at hzero
    exact ⟨Nat.le_refl _, fun i hi hi' => by omega, Or.inl hzero⟩

theorem mbedtlsAsn1WriteNamedBitstring_eq {bits : Nat} (h : bits < 2 ^ 64 - 7) (p : Asn1Writer)
    (buf : ByteString) :
    mbedtlsAsn1WriteNamedBitstring p buf bits =
      mbedtlsAsn1WriteBitstring p buf (namedBits buf bits) := by
  have hbyteLen : (bits + 7) % 2 ^ 64 / 8 = (bits + 7) / 8 := by omega
  have hunused : ((bits + 7) / 8 * 8 + 2 ^ 64 - bits) % 2 ^ 64 = (bits + 7) / 8 * 8 - bits := by
    omega
  unfold mbedtlsAsn1WriteNamedBitstring namedBits
  simp only [hbyteLen, hunused]

/-! ## Parsing -/

variable {input rest : ByteString}

theorem asn1GetLenLoop_eq (bs : ByteString) (len : Nat) (rest : ByteString) :
    asn1GetLenLoop bs.length len (bs ++ rest) = .ok (len * 256 ^ bs.length + ofBE bs, rest) := by
  induction bs generalizing len with
  | nil => simp [asn1GetLenLoop]
  | cons b bs ih =>
    have hor : len <<< 8 ||| b.toNat = len * 256 + b.toNat := by
      rw [← Nat.shiftLeft_add_eq_or_of_lt b.toNat_lt, Nat.shiftLeft_eq]
    rw [List.cons_append, List.length_cons, asn1GetLenLoop, ih, hor, ofBE_cons, Nat.pow_succ]
    congr 2
    ring

/-- The length octets that `mbedtls_asn1_get_len` accepts: one byte below 128, or up to four
bytes of any value. -/
inductive Asn1Length (n : Nat) : ByteString → Prop
  | short (h : n < 128) : Asn1Length n [UInt8.ofNat n]
  | long (digits : ByteString) (hpos : 1 ≤ digits.length) (hle : digits.length ≤ 4)
      (h : ofBE digits = n) : Asn1Length n (UInt8.ofNat (0x80 + digits.length) :: digits)

theorem and_longForm {k : Nat} (hpos : 1 ≤ k) (hle : k ≤ 4) :
    UInt8.ofNat (0x80 + k) &&& 0x80 ≠ 0 ∧ (UInt8.ofNat (0x80 + k) &&& 0x7F).toNat = k := by
  have hall : ∀ k < 5, UInt8.ofNat (0x80 + k) &&& 0x80 ≠ 0 ∧
      (UInt8.ofNat (0x80 + k) &&& 0x7F).toNat = k := by decide +kernel
  exact hall k (by omega)

theorem eq_longForm {b : UInt8} (h : b &&& 0x80 ≠ 0) :
    b = UInt8.ofNat (0x80 + (b &&& 0x7F).toNat) := by
  have hall : ∀ n < 256, UInt8.ofNat n &&& 0x80 ≠ 0 →
      UInt8.ofNat n = UInt8.ofNat (0x80 + (UInt8.ofNat n &&& 0x7F).toNat) := by decide +kernel
  have hb := hall b.toNat b.toNat_lt
  rw [UInt8.ofNat_toNat] at hb
  exact hb h

theorem mbedtlsAsn1GetLen_iff :
    mbedtlsAsn1GetLen input = .ok (n, rest) ↔
      ∃ bs, Asn1Length n bs ∧ input = bs ++ rest ∧ n ≤ rest.length := by
  have hcheck : ∀ {m : Nat} {tail : ByteString}, asn1CheckLen m tail = .ok (n, rest) ↔
      m = n ∧ tail = rest ∧ n ≤ rest.length := by
    intro m tail
    unfold asn1CheckLen
    constructor
    · intro h
      split at h
      · exact Except.noConfusion rfl rfl (heq_of_eq h)
      · next hle =>
        obtain ⟨rfl, rfl⟩ := h
        exact ⟨rfl, rfl, Nat.not_lt.mp hle⟩
    · rintro ⟨rfl, rfl, hle⟩
      rw [if_neg (by omega)]
  rcases input with _ | ⟨b, tail⟩
  · constructor
    · intro h
      exact Except.noConfusion rfl rfl (heq_of_eq h)
    · rintro ⟨bs, hbs, hinput, _⟩
      cases hbs <;> simp at hinput
  · unfold mbedtlsAsn1GetLen
    simp only
    split
    · next hshort =>
      rw [hcheck]
      rw [and_0x80_iff] at hshort
      constructor
      · rintro ⟨rfl, rfl, hle⟩
        refine ⟨_, .short hshort, ?_, hle⟩
        rw [UInt8.ofNat_toNat]
        rfl
      · rintro ⟨bs, hbs, hinput, hle⟩
        cases hbs with
        | short hn =>
          obtain ⟨rfl, rfl⟩ := List.cons.inj hinput
          refine ⟨?_, rfl, hle⟩
          rw [UInt8.toNat_ofNat']
          omega
        | long digits hpos hdigits hvalue =>
          obtain ⟨rfl, _⟩ := List.cons.inj hinput
          have hlong := (and_longForm hpos hdigits).1
          rw [ne_eq, and_0x80_iff] at hlong
          omega
    · next hlong =>
      have hbyte := eq_longForm hlong
      generalize hk : (b &&& 0x7F).toNat = k at hbyte
      have hform : ∀ {bs : ByteString}, Asn1Length n bs → b :: tail = bs ++ rest →
          ∃ digits : ByteString, digits.length = k ∧ 1 ≤ k ∧ k ≤ 4 ∧ ofBE digits = n ∧
            tail = digits ++ rest := by
        intro bs hbs hinput
        cases hbs with
        | short hn =>
          obtain ⟨hb, _⟩ := List.cons.inj hinput
          rw [hb, and_0x80_iff, UInt8.toNat_ofNat'] at hlong
          omega
        | long digits hpos hdigits hvalue =>
          obtain ⟨hb, htail⟩ := List.cons.inj hinput
          have hlen := (and_longForm hpos hdigits).2
          rw [← hb, hk] at hlen
          exact ⟨digits, hlen.symm, by omega, by omega, hvalue, htail⟩
      split
      · next hbad =>
        constructor
        · intro h
          exact Except.noConfusion rfl rfl (heq_of_eq h)
        · rintro ⟨bs, hbs, hinput, _⟩
          obtain ⟨digits, _, hpos, hle, _⟩ := hform hbs hinput
          omega
      · next hgood =>
        split
        · next hend =>
          constructor
          · intro h
            exact Except.noConfusion rfl rfl (heq_of_eq h)
          · rintro ⟨bs, hbs, hinput, _⟩
            obtain ⟨digits, hlen, _, _, _, rfl⟩ := hform hbs hinput
            simp only [List.length_cons, List.length_append] at hend
            omega
        · next hend =>
          rw [List.length_cons] at hend
          have hsplit := List.take_append_drop k tail
          have htake : (tail.take k).length = k := by
            rw [List.length_take]
            omega
          have hloop := asn1GetLenLoop_eq (tail.take k) 0 (tail.drop k)
          rw [htake, hsplit, Nat.zero_mul, Nat.zero_add] at hloop
          simp only [hloop]
          rw [hcheck]
          constructor
          · rintro ⟨hvalue, hrest, hle⟩
            refine ⟨_, .long (tail.take k) (by omega) (by omega) hvalue, ?_, hle⟩
            rw [htake, List.cons_append, ← hrest, hsplit, ← hbyte]
          rintro ⟨bs, hbs, hinput, hle⟩
          obtain ⟨digits, hlen, _, _, hvalue, htail⟩ := hform hbs hinput
          have hdigits : tail.take k = digits := by
            rw [htail, ← hlen, List.take_left']
            rfl
          have hdrop : tail.drop k = rest := by
            rw [htail, ← hlen, List.drop_left']
            rfl
          rw [hdigits]
          exact ⟨hvalue, hdrop, hle⟩

theorem asn1Length_lengthBytes (h : n < 2 ^ 32) : Asn1Length n (lengthBytes n) := by
  have hcount : byteCount n ≤ 4 := by
    rw [byteCount_le]
    omega
  unfold lengthBytes
  split
  · next hshort => exact .short hshort
  next hlong =>
  have hpos := byteCount_of_pos (show 0 < n by omega)
  have hform := Asn1Length.long (toBE (byteCount n) n) (by rw [length_toBE]; omega)
    (by rw [length_toBE]; omega) (ofBE_toBE_byteCount n)
  rwa [length_toBE] at hform

theorem mbedtlsAsn1GetLen_lengthBytes (h : n < 2 ^ 32) (hle : n ≤ rest.length) :
    mbedtlsAsn1GetLen (lengthBytes n ++ rest) = .ok (n, rest) :=
  mbedtlsAsn1GetLen_iff.mpr ⟨_, asn1Length_lengthBytes h, rfl, hle⟩

theorem mbedtlsAsn1GetTag_iff :
    mbedtlsAsn1GetTag input tag = .ok (n, rest) ↔
      ∃ bs, Asn1Length n bs ∧ input = tag :: (bs ++ rest) ∧ n ≤ rest.length := by
  rcases input with _ | ⟨b, tail⟩
  · constructor
    · intro h
      exact Except.noConfusion rfl rfl (heq_of_eq h)
    · rintro ⟨bs, _, hinput, _⟩
      exact absurd hinput (by simp)
  · unfold mbedtlsAsn1GetTag
    simp only
    split
    · next hne =>
      constructor
      · intro h
        exact Except.noConfusion rfl rfl (heq_of_eq h)
      · rintro ⟨bs, _, hinput, _⟩
        exact absurd (List.cons.inj hinput).1 hne
    · next heq =>
      rw [not_not] at heq
      subst heq
      rw [mbedtlsAsn1GetLen_iff]
      simp only [List.cons.injEq, true_and]

theorem mbedtlsAsn1GetTag_element (h : contents.length < 2 ^ 32) (rest : ByteString) :
    mbedtlsAsn1GetTag (element tag contents ++ rest) tag =
      .ok (contents.length, contents ++ rest) := by
  rw [mbedtlsAsn1GetTag_iff]
  refine ⟨_, asn1Length_lengthBytes h, ?_, ?_⟩
  · unfold element
    rw [List.cons_append, List.append_assoc]
  · rw [List.length_append]
    omega

theorem asn1SkipZeros_eq (bs rest : ByteString) :
    asn1SkipZeros bs.length (bs ++ rest) =
      .ok ((bs.dropWhile (· = 0)).length, bs.dropWhile (· = 0) ++ rest) := by
  induction bs with
  | nil => rfl
  | cons b bs ih =>
    rw [List.length_cons, List.cons_append]
    unfold asn1SkipZeros
    by_cases hb : b = 0
    · rw [if_pos hb, ih, List.dropWhile_cons_of_pos (by simpa using hb)]
    · rw [if_neg hb, List.dropWhile_cons_of_neg (by simpa using hb)]
      rfl

theorem asn1GetIntLoop_eq (bs : ByteString) (val : Nat) (rest : ByteString) :
    asn1GetIntLoop bs.length val (bs ++ rest) = .ok (val * 256 ^ bs.length + ofBE bs, rest) := by
  induction bs generalizing val with
  | nil => simp [asn1GetIntLoop]
  | cons b bs ih =>
    have hor : val <<< 8 ||| b.toNat = val * 256 + b.toNat := by
      rw [← Nat.shiftLeft_add_eq_or_of_lt b.toNat_lt, Nat.shiftLeft_eq]
    rw [List.cons_append, List.length_cons, asn1GetIntLoop, ih, hor, ofBE_cons, Nat.pow_succ]
    congr 2
    ring

theorem isIntegerContents_integerBytes (n : Nat) : IsIntegerContents (integerBytes n) := by
  rw [isIntegerContents_iff, ofBE_integerBytes]

theorem mbedtlsAsn1GetInt_element {val : Nat} (h : val < 2 ^ 31) (rest : ByteString) :
    mbedtlsAsn1GetInt (element mbedtlsAsn1Integer (integerBytes val) ++ rest) =
      .ok (val, rest) := by
  have hsize : val.size ≤ 31 := Nat.size_le.mpr h
  have hlen : (integerBytes val).length ≤ 4 := by
    rw [length_integerBytes]
    omega
  have hcount : byteCount val ≤ 4 := by
    rw [byteCount_le]
    omega
  obtain ⟨b, bs, hbytes, hb, _⟩ := isIntegerContents_integerBytes val
  have hskip := asn1SkipZeros_eq (integerBytes val) rest
  rw [dropWhile_zero, ofBE_integerBytes, length_toBE] at hskip
  unfold mbedtlsAsn1GetInt asn1GetTaggedInt
  rw [mbedtlsAsn1GetTag_element (by omega)]
  simp only
  rw [if_neg (by rw [hbytes]; simp)]
  rw [hskip]
  split
  · next hnil =>
    rw [hbytes] at hnil
    exact absurd hnil (by simp)
  next b' tail hcons =>
  rw [hbytes, List.cons_append] at hcons
  obtain ⟨rfl, _⟩ := List.cons.inj hcons
  have hfour : ¬ (byteCount val = 4 ∧
      (toBE (byteCount val) val ++ rest).headD 0 &&& 0x80 ≠ 0) := by
    rintro ⟨hfour, htop⟩
    have hhead : (toBE (1 + 3) val ++ rest).headD 0 = UInt8.ofNat (val / 256 ^ 3) := by
      rw [toBE_add]
      rfl
    rw [hfour, hhead, ne_eq, and_0x80_iff, UInt8.toNat_ofNat'] at htop
    omega
  have hpositive : ¬ (b &&& 0x80 ≠ 0) := by
    rw [not_not, and_0x80_iff]
    exact hb
  have hloop := asn1GetIntLoop_eq (toBE (byteCount val) val) 0 rest
  rw [length_toBE, Nat.zero_mul, Nat.zero_add, ofBE_toBE_byteCount] at hloop
  rw [if_neg hpositive]
  simp only
  rw [if_neg (by omega), if_neg hfour, hloop]

theorem tail_of_isIntegerContents (h : IsIntegerContents contents) :
    (if contents.headD 0 = 0 then contents.tail else contents) =
      toBE (byteCount (ofBE contents)) (ofBE contents) := by
  obtain ⟨b, bs, rfl, _, hneeded⟩ := h
  rw [← dropWhile_zero, List.headD_cons]
  split
  · next hzero =>
    rw [List.dropWhile_cons_of_pos (by simpa using hzero), List.tail_cons]
    rcases bs with _ | ⟨c, cs⟩
    · rfl
    have hc := hneeded c cs rfl hzero
    rw [List.dropWhile_cons_of_neg]
    intro hcz
    rw [decide_eq_true_eq] at hcz
    subst hcz
    exact absurd hc (by decide)
  · next hne => rw [List.dropWhile_cons_of_neg (by simpa using hne)]

open Classical in
theorem mbedtlsAsn1GetInteger_of_tag
    (h : mbedtlsAsn1GetTag input mbedtlsAsn1Integer = .ok (contents.length, contents ++ rest)) :
    mbedtlsAsn1GetInteger input =
      if IsIntegerContents contents then
        .ok (toBE (byteCount (ofBE contents)) (ofBE contents), rest)
      else .error .invalidData := by
  unfold mbedtlsAsn1GetInteger
  rw [h]
  rcases contents with _ | ⟨b, bs⟩
  · have hnot : ¬ IsIntegerContents [] := by
      rintro ⟨b, bs, hnil, _⟩
      exact absurd hnil (by simp)
    rw [if_neg hnot]
    rfl
  · simp only [List.cons_append]
    rw [if_neg (by simp)]
    have htake : (b :: (bs ++ rest)).take (b :: bs).length = b :: bs := by
      rw [← List.cons_append, List.take_left]
    have hdrop : (b :: (bs ++ rest)).drop (b :: bs).length = rest := by
      rw [← List.cons_append, List.drop_left]
    split
    · next htop =>
      have hnot : ¬ IsIntegerContents (b :: bs) := by
        rintro ⟨b', bs', heq, hb, _⟩
        obtain ⟨rfl, rfl⟩ := List.cons.inj heq
        exact htop (and_0x80_iff b |>.mpr hb)
      rw [if_neg hnot]
    · next htop =>
      rw [not_not, and_0x80_iff] at htop
      split
      · next hlong =>
        obtain ⟨hlen, hzero, hnext⟩ := hlong
        have hnot : ¬ IsIntegerContents (b :: bs) := by
          rintro ⟨b', bs', heq, _, hneeded⟩
          obtain ⟨rfl, rfl⟩ := List.cons.inj heq
          rcases bs with _ | ⟨c, cs⟩
          · simp at hlen
          · have hc := hneeded c cs rfl hzero
            rw [List.cons_append, List.headD_cons, and_0x80_iff] at hnext
            omega
        rw [if_neg hnot]
      · next hshort =>
        have hcontents : IsIntegerContents (b :: bs) := by
          refine ⟨b, bs, rfl, htop, ?_⟩
          rintro c cs rfl hzero
          by_contra hc
          apply hshort
          refine ⟨by simp, hzero, ?_⟩
          rw [List.cons_append, List.headD_cons, and_0x80_iff]
          omega
        rw [if_pos hcontents, htake, hdrop, ← tail_of_isIntegerContents hcontents]
        rfl

theorem mbedtlsAsn1GetInteger_iff {head : ByteString} :
    mbedtlsAsn1GetInteger input = .ok (head, rest) ↔
      ∃ bs contents, Asn1Length contents.length bs ∧
        input = mbedtlsAsn1Integer :: (bs ++ (contents ++ rest)) ∧
        contents = integerBytes (ofBE contents) ∧
        head = toBE (byteCount (ofBE contents)) (ofBE contents) := by
  constructor
  · intro h
    rcases htag : mbedtlsAsn1GetTag input mbedtlsAsn1Integer with e | ⟨n, tail⟩
    · unfold mbedtlsAsn1GetInteger at h
      rw [htag] at h
      exact absurd h (by simp)
    obtain ⟨bs, hbs, hinput, hle⟩ := mbedtlsAsn1GetTag_iff.mp htag
    have hlen : (tail.take n).length = n := by
      rw [List.length_take]
      omega
    have hsplit := List.take_append_drop n tail
    have hcut : mbedtlsAsn1GetTag input mbedtlsAsn1Integer =
        .ok ((tail.take n).length, tail.take n ++ tail.drop n) := by
      rw [hlen, hsplit]
      exact htag
    have hget := mbedtlsAsn1GetInteger_of_tag hcut
    rw [h] at hget
    split at hget
    · next hcontents =>
      rw [Except.ok.injEq, Prod.mk.injEq] at hget
      refine ⟨bs, tail.take n, by rwa [hlen], ?_, (isIntegerContents_iff _).mp hcontents, hget.1⟩
      rw [hget.2, hsplit]
      exact hinput
    · next hcontents => exact absurd hget (by simp)
  · rintro ⟨bs, contents, hbs, hinput, hcontents, hhead⟩
    have htag : mbedtlsAsn1GetTag input mbedtlsAsn1Integer =
        .ok (contents.length, contents ++ rest) := by
      rw [mbedtlsAsn1GetTag_iff]
      refine ⟨bs, hbs, hinput, ?_⟩
      rw [List.length_append]
      omega
    rw [mbedtlsAsn1GetInteger_of_tag htag, if_pos ((isIntegerContents_iff _).mpr hcontents), hhead]

theorem mbedtlsAsn1GetInteger_element (h : (integerBytes n).length < 2 ^ 32) (rest : ByteString) :
    mbedtlsAsn1GetInteger (element mbedtlsAsn1Integer (integerBytes n) ++ rest) =
      .ok (toBE (byteCount n) n, rest) := by
  rw [mbedtlsAsn1GetInteger_of_tag (mbedtlsAsn1GetTag_element h rest),
    if_pos (isIntegerContents_integerBytes n), ofBE_integerBytes]

theorem and_0x07 {u : Nat} (h : u < 8) : ¬ UInt8.ofNat u > 7 := by
  have hall : ∀ u < 8, ¬ UInt8.ofNat u > 7 := by decide
  exact hall u h

theorem mbedtlsAsn1GetBitstring_element {bits : Nat}
    (hlen : (bitstringContents buf bits).length < 2 ^ 32) :
    mbedtlsAsn1GetBitstring (element mbedtlsAsn1BitString (bitstringContents buf bits)) =
      .ok (⟨maskedBytes buf bits, UInt8.ofNat ((bits + 7) / 8 * 8 - bits)⟩, []) := by
  have htag := @mbedtlsAsn1GetTag_element mbedtlsAsn1BitString _ hlen []
  rw [List.append_nil, List.append_nil] at htag
  have hlength : (bitstringContents buf bits).length = (maskedBytes buf bits).length + 1 := rfl
  have hunused : (bits + 7) / 8 * 8 - bits < 8 := by omega
  unfold mbedtlsAsn1GetBitstring
  simp only [htag]
  rw [if_neg (by omega)]
  simp only [bitstringContents, List.length_cons, Nat.add_sub_cancel, List.take_length,
    List.drop_length]
  rw [if_neg (and_0x07 hunused), if_neg (by simp)]

theorem mbedtlsAsn1GetMpi_element {w : Nat} (hw : 0 < ciL w) (hbits : w = 8 * ciL w)
    (isBigEndian : Bool) {v : Nat} (hv : v < 2 ^ (w * mbedtlsMpiMaxLimbs - 1))
    (hlen : (integerBytes v).length < 2 ^ 32) (rest : ByteString) (Y : MbedtlsMpi w) :
    ∃ X : MbedtlsMpi w,
      mbedtlsAsn1GetMpi isBigEndian (element mbedtlsAsn1Integer (integerBytes v) ++ rest) Y =
        (.ok rest, X) ∧ X.s = 1 ∧ X.toInt = v := by
  have hlimbs : charsToLimbs w (integerBytes v).length ≤ mbedtlsMpiMaxLimbs := by
    have hsize := Nat.size_le.mpr hv
    have hroom : w * mbedtlsMpiMaxLimbs = 8 * (mbedtlsMpiMaxLimbs * ciL w) := by
      rw [Nat.mul_comm mbedtlsMpiMaxLimbs, ← Nat.mul_assoc, ← hbits]
    have hpos : 0 < mbedtlsMpiMaxLimbs * ciL w := Nat.mul_pos (by decide) hw
    rw [charsToLimbs_le_iff hw]
    rw [length_integerBytes]
    omega
  obtain ⟨X, hread, hs, _, hvalue⟩ := mbedtlsMpiReadBinary_of_le hw hbits isBigEndian Y hlimbs
  refine ⟨X, ?_, hs, ?_⟩
  · unfold mbedtlsAsn1GetMpi
    rw [mbedtlsAsn1GetTag_element hlen]
    simp only [List.take_left, List.drop_left, hread]
    rfl
  · unfold MbedtlsMpi.toInt
    rw [hs, hvalue, ofBE_integerBytes, Int.one_mul]

/-! ## Round trips -/

/-- A function moves `*p` back by exactly the count it returns, over `bytes`, where the buffer
has room for them, and else fails. -/
structure WritesBack (write : Asn1Writer → Asn1Written) (bytes : ByteString) : Prop where
  of_le : ∀ p, bytes.length ≤ p.space.length →
    (write p).ret = .ok bytes.length ∧ (write p).p.data = bytes ++ p.data ∧
      (write p).p.space.length + bytes.length = p.space.length
  of_lt : ∀ p, p.space.length < bytes.length → (write p).ret = .error .bufTooSmall

theorem WritesBack.of_cleared {write : Asn1Writer → Asn1Written} {clear : ByteString → ByteString}
    (hclear : ∀ space, (clear space).length = space.length)
    (h : ∀ p, Asn1Writes { space := clear p.space, data := p.data } bytes bytes.length (write p)) :
    WritesBack write bytes := by
  constructor
  · intro p hroom
    rw [(h p).of_le (by rwa [hclear])]
    refine ⟨rfl, rfl, ?_⟩
    have hlen := Asn1Writer.length_after { space := clear p.space, data := p.data } bytes
    rw [hclear] at hlen
    unfold Asn1Writer.returns
    rw [hlen, Nat.sub_add_cancel hroom]
  · intro p hsmall
    exact (h p).of_lt (by rwa [hclear])

theorem WritesBack.of_writes {write : Asn1Writer → Asn1Written}
    (h : ∀ p, Asn1Writes p bytes bytes.length (write p)) : WritesBack write bytes :=
  .of_cleared (fun _ => rfl) (show ∀ p : Asn1Writer,
    Asn1Writes { space := id p.space, data := p.data } bytes bytes.length (write p) from h)

/-- The bits that `mbedtls_asn1_get_bitstring` returns. -/
def MbedtlsAsn1Bitstring.bits (bs : MbedtlsAsn1Bitstring) : List Bool :=
  bitList bs.p (8 * bs.p.length - bs.unusedBits.toNat)

theorem bits_maskedBytes {bits : Nat} (h : bits ≤ 8 * buf.length) :
    MbedtlsAsn1Bitstring.bits ⟨maskedBytes buf bits, UInt8.ofNat ((bits + 7) / 8 * 8 - bits)⟩ =
      bitList buf bits := by
  have hcount : 8 * (maskedBytes buf bits).length -
      (UInt8.ofNat ((bits + 7) / 8 * 8 - bits)).toNat = bits := by
    rw [length_maskedBytes h, UInt8.toNat_ofNat']
    omega
  unfold MbedtlsAsn1Bitstring.bits
  simp only [hcount]
  exact bitList_maskedBytes h

theorem bitstring_round_trip {bits : Nat} (h : bits ≤ 8 * buf.length)
    (hsize : (element mbedtlsAsn1BitString (bitstringContents buf bits)).length < 2 ^ 31) :
    ∃ bytes bs, WritesBack (mbedtlsAsn1WriteBitstring · buf bits) bytes ∧
      mbedtlsAsn1GetBitstring bytes = .ok (bs, []) ∧ bs.bits = bitList buf bits := by
  have helement := length_element mbedtlsAsn1BitString (bitstringContents buf bits)
  exact ⟨_, _, .of_writes (mbedtlsAsn1WriteBitstring_writes h hsize),
    mbedtlsAsn1GetBitstring_element (by omega), bits_maskedBytes h⟩

theorem named_bitstring_round_trip {buf : ByteString} {bits : Nat} (h : bits ≤ 8 * buf.length)
    (hbits : bits < 2 ^ 64 - 7)
    (hsize : (element mbedtlsAsn1BitString
      (bitstringContents buf (namedBits buf bits))).length < 2 ^ 31) :
    ∃ bytes bs, WritesBack (mbedtlsAsn1WriteNamedBitstring · buf bits) bytes ∧
      mbedtlsAsn1GetBitstring bytes = .ok (bs, []) ∧
      bs.bits = (bitList buf bits).rdropWhile (· = false) := by
  have htrim := namedBits_trimmed buf bits
  have hle := htrim.le
  obtain ⟨bytes, bs, hwrite, hget, hvalue⟩ := bitstring_round_trip (by omega) hsize
  refine ⟨bytes, bs, ?_, hget, ?_⟩
  · have heq : (mbedtlsAsn1WriteNamedBitstring · buf bits) =
        (mbedtlsAsn1WriteBitstring · buf (namedBits buf bits)) := by
      funext p
      exact mbedtlsAsn1WriteNamedBitstring_eq hbits p buf
    rwa [heq]
  · rw [hvalue, htrim.bitList]

theorem integer_round_trip {integer : ByteString}
    (hzeros : (integer.takeWhile (· = 0)).length < 2 ^ 32)
    (hsize : (element mbedtlsAsn1Integer (integerBytes (ofBE integer))).length < 2 ^ 31) :
    ∃ bytes, WritesBack (mbedtlsAsn1WriteInteger · integer) bytes ∧
      ∀ rest, mbedtlsAsn1GetInteger (bytes ++ rest) = .ok (integer.dropWhile (· = 0), rest) := by
  have hcontents := length_element mbedtlsAsn1Integer (integerBytes (ofBE integer))
  refine ⟨element mbedtlsAsn1Integer (integerBytes (ofBE integer)), ?_, fun rest => ?_⟩
  · exact .of_cleared (fun space => List.length_replicate)
      (mbedtlsAsn1WriteInteger_writes hzeros hsize)
  · rw [mbedtlsAsn1GetInteger_element (by omega), dropWhile_zero]

theorem mpi_round_trip {w : Nat} (hw : w = 32 ∨ w = 64) (isBigEndian : Bool) {X : MbedtlsMpi w}
    (hs : X.s = 1 ∨ X.s = -1) (hnonneg : 0 ≤ X.toInt)
    (hlt : X.toInt < 2 ^ (w * mbedtlsMpiMaxLimbs - 1)) :
    ∃ bytes, WritesBack (mbedtlsAsn1WriteMpi · X) bytes ∧
      ∀ (rest : ByteString) (Y : MbedtlsMpi w), ∃ X' : MbedtlsMpi w,
        mbedtlsAsn1GetMpi isBigEndian (bytes ++ rest) Y = (.ok rest, X') ∧
        X'.s = 1 ∧ X'.toInt = X.toInt := by
  have hlimb : 0 < ciL w ∧ w = 8 * ciL w := by
    rcases hw with rfl | rfl <;> exact ⟨by decide, by decide⟩
  have hsign : X.s = 1 ∨ X.abs = 0 := by
    rcases hs with hs | hs
    · exact .inl hs
    · right
      unfold MbedtlsMpi.toInt at hnonneg
      rw [hs] at hnonneg
      omega
  have hvalue : X.toInt = X.abs := by
    unfold MbedtlsMpi.toInt
    rcases hsign with hs | hzero
    · rw [hs, Int.one_mul]
    · rw [hzero]
      simp
  have hv : X.abs < 2 ^ (w * mbedtlsMpiMaxLimbs - 1) := by
    rw [hvalue] at hlt
    exact_mod_cast hlt
  have hcontents : (integerBytes X.abs).length ≤ 80000 := by
    have hbits : w * mbedtlsMpiMaxLimbs ≤ 640000 := by
      rcases hw with rfl | rfl <;> decide
    have hsize := Nat.size_le.mpr hv
    rw [length_integerBytes]
    omega
  have hheader : (lengthBytes (integerBytes X.abs).length).length ≤ 5 := by
    have hcount : byteCount (integerBytes X.abs).length ≤ 4 := by
      rw [byteCount_le]
      omega
    rw [length_lengthBytes]
    split <;> omega
  have hsize : (element mbedtlsAsn1Integer (integerBytes X.abs)).length < 2 ^ 31 := by
    rw [length_element]
    omega
  refine ⟨_, .of_writes (mbedtlsAsn1WriteMpi_writes hlimb.1 hlimb.2 hsign hsize), ?_⟩
  intro rest Y
  rw [hvalue]
  exact mbedtlsAsn1GetMpi_element hlimb.1 hlimb.2 isBigEndian hv (by omega) rest Y

/-- What the writing functions write is read back, within the limits of the code on lengths, numbers
and bit strings. -/
theorem asn1_round_trips {w : Nat} (hw : w = 32 ∨ w = 64) (isBigEndian : Bool) :
    (∀ len ≤ 0xFFFFFFFF, ∃ bytes, WritesBack (mbedtlsAsn1WriteLen · len) bytes ∧
      ∀ rest, len ≤ rest.length → mbedtlsAsn1GetLen (bytes ++ rest) = .ok (len, rest)) ∧
    (∀ val : Nat, val < 2 ^ 31 → ∃ bytes, WritesBack (mbedtlsAsn1WriteInt · val) bytes ∧
      ∀ rest, mbedtlsAsn1GetInt (bytes ++ rest) = .ok (val, rest)) ∧
    (∀ integer : ByteString, (integer.takeWhile (· = 0)).length < 2 ^ 32 →
      (element mbedtlsAsn1Integer (integerBytes (ofBE integer))).length < 2 ^ 31 →
      ∃ bytes, WritesBack (mbedtlsAsn1WriteInteger · integer) bytes ∧
        ∀ rest, mbedtlsAsn1GetInteger (bytes ++ rest) = .ok (integer.dropWhile (· = 0), rest)) ∧
    (∀ (buf : ByteString) (bits : Nat), bits ≤ 8 * buf.length →
      (element mbedtlsAsn1BitString (bitstringContents buf bits)).length < 2 ^ 31 →
      ∃ bytes bs, WritesBack (mbedtlsAsn1WriteBitstring · buf bits) bytes ∧
        mbedtlsAsn1GetBitstring bytes = .ok (bs, []) ∧ bs.bits = bitList buf bits) ∧
    (∀ (buf : ByteString) (bits : Nat), bits ≤ 8 * buf.length → bits < 2 ^ 64 - 7 →
      (element mbedtlsAsn1BitString (bitstringContents buf (namedBits buf bits))).length < 2 ^ 31 →
      ∃ bytes bs, WritesBack (mbedtlsAsn1WriteNamedBitstring · buf bits) bytes ∧
        mbedtlsAsn1GetBitstring bytes = .ok (bs, []) ∧
        bs.bits = (bitList buf bits).rdropWhile (· = false)) ∧
    (∀ X : MbedtlsMpi w, X.s = 1 ∨ X.s = -1 → 0 ≤ X.toInt →
      X.toInt < 2 ^ (w * mbedtlsMpiMaxLimbs - 1) →
      ∃ bytes, WritesBack (mbedtlsAsn1WriteMpi · X) bytes ∧
        ∀ (rest : ByteString) (Y : MbedtlsMpi w), ∃ X' : MbedtlsMpi w,
          mbedtlsAsn1GetMpi isBigEndian (bytes ++ rest) Y = (.ok rest, X') ∧
          X'.s = 1 ∧ X'.toInt = X.toInt) ∧
    (∀ input head rest : ByteString, mbedtlsAsn1GetInteger input = .ok (head, rest) ↔
      ∃ bs contents, Asn1Length contents.length bs ∧
        input = mbedtlsAsn1Integer :: (bs ++ (contents ++ rest)) ∧
        contents = integerBytes (ofBE contents) ∧
        head = toBE (byteCount (ofBE contents)) (ofBE contents)) ∧
    (∀ (input rest : ByteString) (len : Nat),
      mbedtlsAsn1GetLen input = .ok (len, rest) → len ≤ rest.length) := by
  refine ⟨?_, ?_, ?_, ?_, ?_, ?_, ?_, ?_⟩
  · intro len hlen
    refine ⟨lengthBytes len, .of_writes fun p => ?_, fun rest hle => ?_⟩
    · exact mbedtlsAsn1WriteLen_writes hlen p
    · exact mbedtlsAsn1GetLen_lengthBytes (by omega) hle
  · intro val hval
    refine ⟨element mbedtlsAsn1Integer (integerBytes val), .of_writes fun p => ?_, fun rest => ?_⟩
    · exact mbedtlsAsn1WriteInt_writes hval p
    · exact mbedtlsAsn1GetInt_element hval rest
  · intro integer hzeros hsize
    exact integer_round_trip hzeros hsize
  · intro buf bits h hsize
    exact bitstring_round_trip h hsize
  · intro buf bits h hbits hsize
    exact named_bitstring_round_trip h hbits hsize
  · intro X hs hnonneg hlt
    exact mpi_round_trip hw isBigEndian hs hnonneg hlt
  · intro input head rest
    exact mbedtlsAsn1GetInteger_iff
  · intro input rest len h
    obtain ⟨_, _, _, hle⟩ := mbedtlsAsn1GetLen_iff.mp h
    exact hle

theorem asn1_round_trips_witness :
    ∃ bytes, WritesBack (mbedtlsAsn1WriteInt · 200) bytes ∧
      ∀ rest, mbedtlsAsn1GetInt (bytes ++ rest) = .ok (200, rest) :=
  (asn1_round_trips (.inl rfl) true : _ ∧ _).2.1 200 (by decide)

/-- A bit string is not read where a byte comes after it, a length of 33 bits is not written,
and an INTEGER is read whose length is not in its shortest form. -/
theorem bitstring_needs_end :
    (mbedtlsAsn1WriteBitstring ⟨[0, 0, 0, 0], []⟩ [0xA0] 3).p.data = [3, 2, 5, 0xA0] ∧
    mbedtlsAsn1GetBitstring ([3, 2, 5, 0xA0] ++ [0]) = .error .lengthMismatch ∧
    (mbedtlsAsn1WriteLen ⟨[0, 0, 0, 0, 0, 0, 0, 0], []⟩ (2 ^ 32)).ret = .error .invalidLength ∧
    mbedtlsAsn1GetInteger [2, 0x81, 1, 5] = .ok ([5], []) := by
  decide +kernel

end TfPsaCrypto
