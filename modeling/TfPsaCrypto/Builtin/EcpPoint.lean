import TfPsaCrypto.Builtin.Ecp
import TfPsaCrypto.Library.SquareRoot

/-!
# Encodings of points

`mbedtls_ecp_point_write_binary`, `mbedtls_ecp_point_read_binary` and the records of TLS around
them. The output buffer is the bytes written to its start.
-/

namespace TfPsaCrypto.Ecp

open Bytes

/-! ## Bignums -/

def mpiWriteBinary (X : Int) (buflen : Nat) : Except EcpError ByteString :=
  if X.natAbs < 256 ^ buflen then .ok (toBE buflen X.natAbs) else .error .mpiBufferTooSmall

def mpiWriteBinaryLe (X : Int) (buflen : Nat) : Except EcpError ByteString :=
  if X.natAbs < 256 ^ buflen then .ok (toLE buflen X.natAbs) else .error .mpiBufferTooSmall

/-! ## Writing -/

/-- The formats `MBEDTLS_ECP_PF_UNCOMPRESSED` and `MBEDTLS_ECP_PF_COMPRESSED`, and other
integers. -/
inductive EcpPointFormat where
  | uncompressed
  | compressed
  | other (format : Int)
  deriving DecidableEq, Repr

def mbedtlsEcpPointWriteBinary (grp : EcpGroup) (P : EcpPoint) (format : EcpPointFormat)
    (buflen : Nat) : Except EcpError ByteString :=
  if format ≠ .uncompressed ∧ format ≠ .compressed then .error .badInputData
  else
    match mbedtlsEcpGetType grp with
    | .none => .error .featureUnavailable
    | .montgomery =>
      if buflen < grp.plen then .error .bufferTooSmall else mpiWriteBinaryLe P.X grp.plen
    | .shortWeierstrass =>
      -- common case: P == 0
      if P.Z = 0 then
        if buflen < 1 then .error .bufferTooSmall else .ok [0x00]
      else if format = .uncompressed then
        if buflen < 2 * grp.plen + 1 then .error .bufferTooSmall
        else do
          let x ← mpiWriteBinary P.X grp.plen
          let y ← mpiWriteBinary P.Y grp.plen
          pure (0x04 :: x ++ y)
      else
        if buflen < grp.plen + 1 then .error .bufferTooSmall
        else do
          let x ← mpiWriteBinary P.X grp.plen
          pure ((0x02 + UInt8.ofNat (P.Y.natAbs % 2)) :: x)

def mbedtlsEcpTlsWritePoint (grp : EcpGroup) (pt : EcpPoint) (format : EcpPointFormat)
    (blen : Nat) : Except EcpError ByteString :=
  if format ≠ .uncompressed ∧ format ≠ .compressed then .error .badInputData
  else if blen < 1 then .error .badInputData
  else do
    let out ← mbedtlsEcpPointWriteBinary grp pt format (blen - 1)
    pure (UInt8.ofNat out.length :: out)

/-! ## Reading -/

/-- A square root of the right-hand side if there is one. -/
def mbedtlsEcpSwDeriveY (grp : EcpGroup) (X : Int) (parityBit : Nat) : Except EcpError Int :=
  if grp.P % 2 ≠ 1 ∨ grp.P / 2 % 2 ≠ 1 then .error .featureUnavailable
  else do
    let Y ← ecpSwRhs grp X
    let exp := (grp.P + 1) >>> 2
    let Y ← mbedtlsMpiExpMod Y exp grp.P
    if Y.natAbs % 2 ≠ parityBit then pure (grp.P - Y) else pure Y

def mbedtlsEcpPointReadBinary (grp : EcpGroup) (buf : ByteString) : Except EcpError EcpPoint :=
  match buf with
  | [] => .error .badInputData
  | b :: data =>
    match mbedtlsEcpGetType grp with
    | .none => .error .featureUnavailable
    | .montgomery =>
      if grp.plen ≠ buf.length then .error .badInputData
      else
        -- the most significant bit is cleared as prescribed in RFC7748
        let X := if grp.id = .curve25519 then ofLE buf % 2 ^ (grp.plen * 8 - 1) else ofLE buf
        .ok { X := X, Y := 0, Z := 1 }
    | .shortWeierstrass =>
      if b = 0x00 then
        if buf.length = 1 then .ok mbedtlsEcpSetZero else .error .badInputData
      else if buf.length < 1 + grp.plen then .error .badInputData
      else
        let X := ofBE (data.take grp.plen)
        if b = 0x04 then
          if buf.length ≠ 1 + grp.plen * 2 then .error .badInputData
          else .ok { X := X, Y := ofBE ((data.drop grp.plen).take grp.plen), Z := 1 }
        else if b = 0x02 ∨ b = 0x03 then
          if buf.length ≠ 1 + grp.plen then .error .badInputData
          else do
            let Y ← mbedtlsEcpSwDeriveY grp X (b.toNat % 2)
            pure { X := X, Y := Y, Z := 1 }
        else .error .badInputData

def mbedtlsEcpTlsReadPoint (grp : EcpGroup) (buf : ByteString) :
    Except EcpError (EcpPoint × ByteString) :=
  if buf.length < 2 then .error .badInputData
  else
    match buf with
    | [] => .error .badInputData
    | dataLen :: rest =>
      if dataLen < 1 ∨ dataLen.toNat > buf.length - 1 then .error .badInputData
      else do
        let pt ← mbedtlsEcpPointReadBinary grp (rest.take dataLen.toNat)
        pure (pt, rest.drop dataLen.toNat)

/-! ## Points of short Weierstrass groups -/

variable {x : Int} {pt : EcpPoint} {format : EcpPointFormat}

def SamePoint (P Q : EcpPoint) : Prop := P.Z = 0 ∧ Q.Z = 0 ∨ P = Q

theorem mpiWriteBinary_eq {n : Nat} (hx : 0 ≤ x) (hlt : x < 256 ^ n) :
    mpiWriteBinary x n = .ok (toBE n x.toNat) := by
  obtain ⟨m, rfl⟩ := Int.eq_ofNat_of_zero_le hx
  unfold mpiWriteBinary
  rw [Int.natAbs_natCast, Int.toNat_natCast, if_pos (by exact_mod_cast hlt)]

theorem ofBE_toBE_toNat {n : Nat} (hx : 0 ≤ x) (hlt : x < 256 ^ n) :
    (ofBE (toBE n x.toNat) : Int) = x := by
  obtain ⟨m, rfl⟩ := Int.eq_ofNat_of_zero_le hx
  rw [Int.toNat_natCast, ofBE_toBE, Nat.mod_eq_of_lt (by exact_mod_cast hlt)]

namespace ShortWeierstrass

variable {grp : EcpGroup} (hgrp : ShortWeierstrass grp)

include hgrp

theorem lt_pow_plen (h : x < grp.P) : x < 256 ^ grp.plen := by
  have hP : (grp.P : Int) < 256 ^ grp.plen := by exact_mod_cast grp.lt_plen
  omega

theorem write_zero (hz : pt.Z = 0) (hformat : format = .uncompressed ∨ format = .compressed)
    (buflen : Nat) :
    mbedtlsEcpPointWriteBinary grp pt format buflen =
      if buflen < 1 then .error .bufferTooSmall else .ok [0x00] := by
  unfold mbedtlsEcpPointWriteBinary
  rw [if_neg (by rcases hformat with rfl | rfl <;> simp), hgrp.type]
  rw [if_pos hz]

theorem write_uncompressed {y z : Int} (hz : z ≠ 0) (hx : 0 ≤ x) (hxlt : x < 256 ^ grp.plen)
    (hy : 0 ≤ y) (hylt : y < 256 ^ grp.plen) (buflen : Nat) :
    mbedtlsEcpPointWriteBinary grp ⟨x, y, z⟩ .uncompressed buflen =
      if buflen < 2 * grp.plen + 1 then .error .bufferTooSmall
      else .ok (0x04 :: toBE grp.plen x.toNat ++ toBE grp.plen y.toNat) := by
  unfold mbedtlsEcpPointWriteBinary
  rw [if_neg (by simp), hgrp.type]
  simp only
  rw [if_neg hz, if_pos trivial, mpiWriteBinary_eq hx hxlt, mpiWriteBinary_eq hy hylt]
  rfl

theorem write_compressed {y z : Int} (hz : z ≠ 0) (hx : 0 ≤ x) (hxlt : x < 256 ^ grp.plen)
    (buflen : Nat) :
    mbedtlsEcpPointWriteBinary grp ⟨x, y, z⟩ .compressed buflen =
      if buflen < grp.plen + 1 then .error .bufferTooSmall
      else .ok ((0x02 + UInt8.ofNat (y.natAbs % 2)) :: toBE grp.plen x.toNat) := by
  unfold mbedtlsEcpPointWriteBinary
  rw [if_neg (by simp), hgrp.type]
  simp only
  rw [if_neg hz, if_neg nofun, mpiWriteBinary_eq hx hxlt]
  rfl

theorem read_uncompressed (x y : ByteString) (hx : x.length = grp.plen)
    (hy : y.length = grp.plen) :
    mbedtlsEcpPointReadBinary grp (0x04 :: x ++ y) = .ok ⟨ofBE x, ofBE y, 1⟩ := by
  have hlen : (0x04 :: x ++ y : ByteString).length = 1 + grp.plen * 2 := by
    rw [List.cons_append, List.length_cons, List.length_append]
    omega
  unfold mbedtlsEcpPointReadBinary
  rw [List.cons_append] at hlen ⊢
  rw [hgrp.type]
  simp only
  rw [if_neg (by decide), if_neg (by omega), if_pos trivial, if_neg (not_not.mpr hlen), ← hx,
    List.take_left, List.drop_left, hx, ← hy, List.take_length]

theorem read_compressed {b : UInt8} (hb : b = 0x02 ∨ b = 0x03) {x : ByteString}
    (hx : x.length = grp.plen) :
    mbedtlsEcpPointReadBinary grp (b :: x) =
      (mbedtlsEcpSwDeriveY grp (ofBE x) (b.toNat % 2)).map fun Y => ⟨ofBE x, Y, 1⟩ := by
  unfold mbedtlsEcpPointReadBinary
  rw [hgrp.type]
  simp only
  rw [List.length_cons, if_neg (by rcases hb with rfl | rfl <;> decide), if_neg (by omega),
    if_neg (by rcases hb with rfl | rfl <;> decide), if_pos hb, if_neg (by omega), ← hx,
    List.take_length]
  rcases mbedtlsEcpSwDeriveY grp (ofBE x) (b.toNat % 2) with e | Y <;> rfl

theorem deriveY_eq {y : Int} (hmod : grp.P % 4 = 3) (h : OnCurve grp ⟨x, y, 1⟩) :
    mbedtlsEcpSwDeriveY grp x (y.natAbs % 2) = .ok y := by
  have hsize : grp.P.size ≤ 521 := by
    rw [← hgrp.pbits]
    exact hgrp.maxBits
  have hexp : ((grp.P + 1) >>> 2).size ≤ 8192 := by
    rw [Nat.size_le, Nat.shiftRight_eq_div_pow]
    calc (grp.P + 1) / 2 ^ 2 ≤ grp.P := by omega
      _ < 2 ^ grp.P.size := Nat.lt_size_self _
      _ ≤ 2 ^ 8192 := Nat.pow_le_pow_right (by omega) (by omega)
  obtain ⟨w, hw⟩ := hgrp.ecpSwRhs_ok h.x_nonneg h.x_lt
  obtain ⟨hrhs, -⟩ := hgrp.ecpSwRhs_eq_ok hw
  have hroot := SquareRoot.pow_emod_eq hgrp.prime hmod (hrhs.trans h.equation.symm) h.y_nonneg
    h.y_lt
  have hy := h.y_nonneg
  have hylt := h.y_lt
  unfold mbedtlsEcpSwDeriveY mbedtlsMpiExpMod
  simp only at hw hroot hy hylt
  rw [if_neg (by omega), hw]
  simp only [bind, Except.bind]
  rw [if_neg (by omega), if_neg (by omega), Nat.shiftRight_eq_div_pow]
  simp only
  rcases hroot with hsame | ⟨hother, hy'⟩
  · rw [hsame, if_neg (not_not.mpr rfl)]
    rfl
  · rw [hother, if_pos (by omega)]
    congr 1
    omega

theorem read_write (hpt : pt.Z = 0 ∨ OnCurve grp pt)
    (hformat : format = .uncompressed ∨ format = .compressed ∧ grp.P % 4 = 3) (buflen : Nat) :
    mbedtlsEcpPointWriteBinary grp pt format buflen = .error .bufferTooSmall ∨
    ∃ out pt', mbedtlsEcpPointWriteBinary grp pt format buflen = .ok out ∧
      0 < out.length ∧ out.length ≤ 2 * grp.plen + 1 ∧ out.length ≤ buflen ∧
      mbedtlsEcpPointReadBinary grp out = .ok pt' ∧ SamePoint pt pt' := by
  rcases hpt with hz | hcurve
  · rw [hgrp.write_zero hz (hformat.imp id And.left)]
    split
    · exact .inl rfl
    next hlen =>
    refine .inr ⟨[0x00], mbedtlsEcpSetZero, rfl, Nat.one_pos, ?_, ?_, ?_, .inl ⟨hz, rfl⟩⟩
    · rw [List.length_singleton]
      omega
    · rw [List.length_singleton]
      omega
    · unfold mbedtlsEcpPointReadBinary
      rw [hgrp.type]
      rfl
  · obtain ⟨x, y, z⟩ := pt
    obtain rfl : z = 1 := hcurve.z
    have hx : 0 ≤ x := hcurve.x_nonneg
    have hy : 0 ≤ y := hcurve.y_nonneg
    have hxlt : x < 256 ^ grp.plen := hgrp.lt_pow_plen hcurve.x_lt
    have hylt : y < 256 ^ grp.plen := hgrp.lt_pow_plen hcurve.y_lt
    rcases hformat with rfl | ⟨rfl, hmod⟩
    · rw [hgrp.write_uncompressed one_ne_zero hx hxlt hy hylt]
      split
      · exact .inl rfl
      next hlen =>
      refine .inr ⟨_, ⟨x, y, 1⟩, rfl, ?_, ?_, ?_, ?_, .inr rfl⟩
      · simp
      · simp only [List.length_append, List.length_cons, length_toBE]
        omega
      · simp only [List.length_append, List.length_cons, length_toBE]
        omega
      · rw [hgrp.read_uncompressed _ _ (length_toBE _ _) (length_toBE _ _),
          ofBE_toBE_toNat hx hxlt, ofBE_toBE_toNat hy hylt]
    · rw [hgrp.write_compressed one_ne_zero hx hxlt]
      split
      · exact .inl rfl
      next hlen =>
      refine .inr ⟨_, ⟨x, y, 1⟩, rfl, ?_, ?_, ?_, ?_, .inr rfl⟩
      · simp
      · simp only [List.length_cons, length_toBE]
        omega
      · simp only [List.length_cons, length_toBE]
        omega
      have hparity : y.natAbs % 2 = 0 ∨ y.natAbs % 2 = 1 := by omega
      have hb : (0x02 + UInt8.ofNat (y.natAbs % 2) : UInt8) = 0x02 ∨
          (0x02 + UInt8.ofNat (y.natAbs % 2) : UInt8) = 0x03 := by
        rcases hparity with heq | heq <;> rw [heq] <;> decide
      have hbit : (0x02 + UInt8.ofNat (y.natAbs % 2) : UInt8).toNat % 2 = y.natAbs % 2 := by
        rcases hparity with heq | heq <;> rw [heq] <;> decide
      rw [hgrp.read_compressed hb (length_toBE _ _), ofBE_toBE_toNat hx hxlt, hbit,
        hgrp.deriveY_eq hmod hcurve]
      rfl

theorem write_read {b : UInt8} {data : ByteString} (hb : b = 0x04 ∨ b = 0x00)
    (hread : mbedtlsEcpPointReadBinary grp (b :: data) = .ok pt) {buflen : Nat}
    (hlen : (b :: data : ByteString).length ≤ buflen) :
    mbedtlsEcpPointWriteBinary grp pt .uncompressed buflen = .ok (b :: data) := by
  unfold mbedtlsEcpPointReadBinary at hread
  rw [hgrp.type] at hread
  rw [List.length_cons] at hlen
  rcases hb with rfl | rfl
  · simp only at hread
    rw [if_neg (by decide)] at hread
    split at hread
    · cases hread
    rw [if_pos trivial] at hread
    split at hread
    · cases hread
    next hexact =>
    rw [List.length_cons] at hexact
    cases hread
    have hx : (data.take grp.plen).length = grp.plen := by
      rw [List.length_take]
      omega
    have hy : ((data.drop grp.plen).take grp.plen).length = grp.plen := by
      rw [List.length_take, List.length_drop]
      omega
    have hxlt := ofBE_lt (data.take grp.plen)
    have hylt := ofBE_lt ((data.drop grp.plen).take grp.plen)
    rw [hx] at hxlt
    rw [hy] at hylt
    have hxback := toBE_ofBE (data.take grp.plen)
    have hyback := toBE_ofBE ((data.drop grp.plen).take grp.plen)
    rw [hx] at hxback
    rw [hy] at hyback
    have hrest : (data.drop grp.plen).take grp.plen = data.drop grp.plen := by
      apply List.take_of_length_le
      rw [List.length_drop]
      omega
    rw [hgrp.write_uncompressed one_ne_zero (by positivity) (by exact_mod_cast hxlt)
      (by positivity) (by exact_mod_cast hylt), if_neg (by omega), Int.toNat_natCast,
      Int.toNat_natCast, hxback, hyback, hrest, List.cons_append, List.take_append_drop]
  · simp only at hread
    rw [if_pos trivial] at hread
    split at hread
    · next hone =>
      rw [List.length_cons] at hone
      cases hread
      rw [hgrp.write_zero rfl (.inl rfl), if_neg (by omega),
        List.length_eq_zero_iff.mp (Nat.succ_inj.mp hone)]
    · cases hread

theorem read_compressed_x {b : UInt8} (hb : b = 0x02 ∨ b = 0x03) {data : ByteString}
    (hread : mbedtlsEcpPointReadBinary grp (b :: data) = .ok pt) :
    pt.X = ofBE data := by
  have hlen : data.length = grp.plen := by
    unfold mbedtlsEcpPointReadBinary at hread
    rw [hgrp.type] at hread
    simp only at hread
    rw [List.length_cons, if_neg (by rcases hb with rfl | rfl <;> decide)] at hread
    split at hread
    · cases hread
    rw [if_neg (by rcases hb with rfl | rfl <;> decide)] at hread
    split at hread
    · cases hread
    · omega
  rw [hgrp.read_compressed hb hlen] at hread
  rcases hy : mbedtlsEcpSwDeriveY grp (ofBE data) (b.toNat % 2) with e | y
  · rw [hy] at hread
    cases hread
  · rw [hy] at hread
    cases hread
    rfl

end ShortWeierstrass

/-! ## Montgomery groups -/

structure Montgomery (grp : EcpGroup) : Prop where
  type : mbedtlsEcpGetType grp = .montgomery
  large : 3 < grp.P
  maxBits : grp.P.size ≤ mbedtlsEcpMaxBits
  curve25519 : grp.id = .curve25519 → grp.P = 2 ^ 255 - 19

namespace Montgomery

variable {grp : EcpGroup} (hgrp : Montgomery grp)

include hgrp

theorem plen_pos : 0 < grp.plen := by
  have hsize := Nat.size_pos.mpr (Nat.lt_trans (Nat.succ_pos 2) hgrp.large)
  unfold EcpGroup.plen
  omega

theorem plen_le : grp.plen ≤ 66 := by
  have hbits := hgrp.maxBits
  rw [mbedtlsEcpMaxBits] at hbits
  unfold EcpGroup.plen
  omega

theorem plen_curve25519 (hid : grp.id = .curve25519) : grp.plen = 32 := by
  have hsize : grp.P.size = 255 := by
    rw [hgrp.curve25519 hid]
    decide +kernel
  unfold EcpGroup.plen
  rw [hsize]

theorem read_write (hx : 0 ≤ pt.X) (hxlt : pt.X < grp.P)
    (hformat : format = .uncompressed ∨ format = .compressed) (buflen : Nat) :
    mbedtlsEcpPointWriteBinary grp pt format buflen = .error .bufferTooSmall ∨
    ∃ out, mbedtlsEcpPointWriteBinary grp pt format buflen = .ok out ∧
      out.length = grp.plen ∧ out.length ≤ buflen ∧
      mbedtlsEcpPointReadBinary grp out = .ok ⟨pt.X, 0, 1⟩ := by
  obtain ⟨x, hX⟩ := Int.eq_ofNat_of_zero_le hx
  rw [hX] at hxlt
  have hlt : x < 256 ^ grp.plen := by
    have hP := grp.lt_plen
    omega
  unfold mbedtlsEcpPointWriteBinary
  rw [if_neg (by rcases hformat with rfl | rfl <;> simp), hgrp.type]
  simp only
  split
  · exact .inl rfl
  next hlen =>
  right
  unfold mpiWriteBinaryLe
  rw [hX, Int.natAbs_natCast, if_pos hlt]
  refine ⟨_, rfl, length_toLE _ _, by rw [length_toLE]; omega, ?_⟩
  have hpos := hgrp.plen_pos
  have hlength := length_toLE grp.plen x
  have hvalue := ofLE_toLE_of_lt hlt
  rcases hout : toLE grp.plen x with _ | ⟨b, data⟩
  · rw [hout, List.length_nil] at hlength
    omega
  rw [hout] at hlength hvalue
  unfold mbedtlsEcpPointReadBinary
  rw [hgrp.type]
  simp only
  rw [if_neg (not_not.mpr hlength.symm), hvalue]
  split
  · next hid =>
    have hsmall : x < 2 ^ (grp.plen * 8 - 1) := by
      rw [hgrp.plen_curve25519 hid]
      rw [hgrp.curve25519 hid] at hxlt
      omega
    rw [Nat.mod_eq_of_lt hsmall]
  · rfl

end Montgomery

/-! ## TLS records -/

theorem tlsRead_tlsWrite {grp : EcpGroup} {pt : EcpPoint} {format : EcpPointFormat}
    {blen : Nat} {out : ByteString} (hplen : grp.plen ≤ 66)
    (hwrite : mbedtlsEcpTlsWritePoint grp pt format blen = .ok out) {Q : EcpPoint → Prop}
    (hread : mbedtlsEcpPointWriteBinary grp pt format (blen - 1) = .error .bufferTooSmall ∨
      ∃ point pt', mbedtlsEcpPointWriteBinary grp pt format (blen - 1) = .ok point ∧
        0 < point.length ∧ point.length ≤ 2 * grp.plen + 1 ∧
        mbedtlsEcpPointReadBinary grp point = .ok pt' ∧ Q pt')
    (rest : ByteString) :
    ∃ pt', mbedtlsEcpTlsReadPoint grp (out ++ rest) = .ok (pt', rest) ∧ Q pt' := by
  unfold mbedtlsEcpTlsWritePoint at hwrite
  split at hwrite
  · cases hwrite
  split at hwrite
  · cases hwrite
  rcases hread with herror | ⟨point, pt', hpoint, hpos, hlen, hback, hQ⟩
  · rw [herror] at hwrite
    cases hwrite
  rw [hpoint] at hwrite
  cases hwrite
  refine ⟨pt', ?_, hQ⟩
  have hbyte : (UInt8.ofNat point.length).toNat = point.length := by
    rw [UInt8.toNat_ofNat']
    omega
  unfold mbedtlsEcpTlsReadPoint
  rw [List.cons_append, List.length_cons, List.length_append, if_neg (by omega)]
  simp only
  rw [if_neg, hbyte, List.take_left, List.drop_left, hback]
  · rfl
  rw [not_or, hbyte]
  constructor
  · intro hzero
    have hzero' := UInt8.lt_iff_toNat_lt.mp hzero
    have hone : (1 : UInt8).toNat = 1 := rfl
    omega
  · omega

/-! ## Round trips -/

/-- Encodings of points of short Weierstrass groups and of Montgomery groups. -/
theorem ecp_point_round_trip (grp : EcpGroup) :
    (ShortWeierstrass grp →
      (∀ pt format, pt.Z = 0 ∨ OnCurve grp pt →
        format = .uncompressed ∨ format = .compressed ∧ grp.P % 4 = 3 →
        (∀ buflen, mbedtlsEcpPointWriteBinary grp pt format buflen = .error .bufferTooSmall ∨
          ∃ out pt', mbedtlsEcpPointWriteBinary grp pt format buflen = .ok out ∧
            out.length ≤ buflen ∧ mbedtlsEcpPointReadBinary grp out = .ok pt' ∧
            SamePoint pt pt') ∧
        ∀ blen out rest, mbedtlsEcpTlsWritePoint grp pt format blen = .ok out →
          ∃ pt', mbedtlsEcpTlsReadPoint grp (out ++ rest) = .ok (pt', rest) ∧ SamePoint pt pt') ∧
      (∀ b data pt buflen, b = 0x04 ∨ b = 0x00 →
        mbedtlsEcpPointReadBinary grp (b :: data) = .ok pt →
        (b :: data : ByteString).length ≤ buflen →
        mbedtlsEcpPointWriteBinary grp pt .uncompressed buflen = .ok (b :: data)) ∧
      ∀ b data pt, b = 0x02 ∨ b = 0x03 →
        (¬ ∃ y : Int, y ^ 2 ≡ grp.rhs (ofBE data) [ZMOD grp.P]) →
        mbedtlsEcpPointReadBinary grp (b :: data) = .ok pt →
        mbedtlsEcpCheckPubkey grp pt ≠ .ok ()) ∧
    (Montgomery grp →
      ∀ (pt : EcpPoint) format, 0 ≤ pt.X → pt.X < grp.P →
        format = .uncompressed ∨ format = .compressed →
        (∀ buflen, mbedtlsEcpPointWriteBinary grp pt format buflen = .error .bufferTooSmall ∨
          ∃ out, mbedtlsEcpPointWriteBinary grp pt format buflen = .ok out ∧
            out.length ≤ buflen ∧ mbedtlsEcpPointReadBinary grp out = .ok ⟨pt.X, 0, 1⟩) ∧
        ∀ blen out rest, mbedtlsEcpTlsWritePoint grp pt format blen = .ok out →
          mbedtlsEcpTlsReadPoint grp (out ++ rest) = .ok (⟨pt.X, 0, 1⟩, rest)) := by
  constructor
  · intro hgrp
    refine ⟨?_, ?_, ?_⟩
    · intro pt format hpt hformat
      constructor
      · intro buflen
        rcases hgrp.read_write hpt hformat buflen with herror | ⟨out, pt', hout, _, _, hlen, hback⟩
        · exact .inl herror
        · exact .inr ⟨out, pt', hout, hlen, hback⟩
      · intro blen out rest hout
        apply tlsRead_tlsWrite hgrp.plen_le hout
        rcases hgrp.read_write hpt hformat (blen - 1) with
          herror | ⟨point, pt', hpoint, hpos, hshort, _, hback⟩
        · exact .inl herror
        · exact .inr ⟨point, pt', hpoint, hpos, hshort, hback⟩
    · intro b data pt buflen hb hread hlen
      exact hgrp.write_read hb hread hlen
    · intro b data pt hb hnone hread hcheck
      have hcurve := hgrp.mbedtlsEcpCheckPubkey_eq_ok.mp hcheck
      apply hnone
      refine ⟨pt.Y, ?_⟩
      rw [← hgrp.read_compressed_x hb hread]
      exact hcurve.equation
  · intro hgrp pt format hx hlt hformat
    constructor
    · intro buflen
      rcases hgrp.read_write hx hlt hformat buflen with herror | ⟨out, hout, _, hlen, hback⟩
      · exact .inl herror
      · exact .inr ⟨out, hout, hlen, hback⟩
    · intro blen out rest hout
      obtain ⟨pt', hread, rfl⟩ := tlsRead_tlsWrite (Q := fun pt' => pt' = ⟨pt.X, 0, 1⟩)
        hgrp.plen_le hout (by
          rcases hgrp.read_write hx hlt hformat (blen - 1) with
            herror | ⟨point, hpoint, hlen, _, hback⟩
          · exact .inl herror
          · have hpos := hgrp.plen_pos
            exact .inr ⟨point, _, hpoint, by omega, by omega, hback, rfl⟩) rest
      exact hread

/-- The point (2, 5) of the small group in compressed form. -/
theorem ecp_point_round_trip_small :
    ∃ out pt', mbedtlsEcpPointWriteBinary smallGroup ⟨2, 5, 1⟩ .compressed 2 = .ok out ∧
      mbedtlsEcpPointReadBinary smallGroup out = .ok pt' ∧ SamePoint ⟨2, 5, 1⟩ pt' := by
  have hpoint : OnCurve smallGroup ⟨2, 5, 1⟩ :=
    ⟨by decide, by decide, by decide, by decide, rfl, by decide⟩
  obtain ⟨hwrite, _⟩ := ((ecp_point_round_trip smallGroup).1 smallGroup_shortWeierstrass).1
    ⟨2, 5, 1⟩ .compressed (.inr hpoint) (.inr ⟨rfl, rfl⟩)
  rcases hwrite 2 with herror | ⟨out, pt', hout, _, hback⟩
  · exact absurd herror (by decide)
  · exact ⟨out, pt', hout, hback⟩

end TfPsaCrypto.Ecp
