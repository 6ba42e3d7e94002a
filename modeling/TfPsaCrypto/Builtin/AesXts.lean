import TfPsaCrypto.Library.BinaryField
import TfPsaCrypto.Library.Bytes

/-!
# AES-XTS

`mbedtls_aes_crypt_xts` of `aes.c`, over any block cipher. The output is the caller's memory, and
the tweaks are elements of GF(2^128).
-/

namespace TfPsaCrypto.AesXts

open Bytes BinaryField

/-! ## Functions -/

def mbedtlsAesDecrypt : Int := 0
def mbedtlsAesEncrypt : Int := 1
def mbedtlsErrAesBadInputData : Int := -135
def mbedtlsErrAesInvalidInputLength : Int := -0x0022

def mbedtlsGf128mulXBle (x : ByteString) : ByteString :=
  let a := BitVec.ofNat 64 (ofLE (slice x 0 8))
  let b := BitVec.ofNat 64 (ofLE (slice x 8 8))
  let ra := (a <<< 1) ^^^ (0x0087#64 >>> (8#64 - ((b >>> 63) <<< 3)))
  let rb := (a >>> 63) ||| (b <<< 1)
  toLE 8 ra.toNat ++ toLE 8 rb.toNat

/-- `mbedtls_aes_crypt_ecb` with the context of the data and with that of the tweak. -/
structure XtsContext where
  crypt : Int → ByteString → Except Int ByteString
  tweak : Int → ByteString → Except Int ByteString

/-- The local variables of the loop; `off` is the position of `input` and `output`. -/
structure XtsState where
  off : Nat
  tweak : ByteString
  prevTweak : ByteString
  output : ByteString

def xtsLoop (ctx : XtsContext) (mode : Int) (leftover : Nat) (input : ByteString) :
    Nat → XtsState → Except Int XtsState
  | 0, s => .ok s
  | blocks + 1, s => do
    let s := if leftover ≠ 0 ∧ mode = mbedtlsAesDecrypt ∧ blocks = 0 then
        { s with prevTweak := s.tweak, tweak := mbedtlsGf128mulXBle s.tweak }
      else s
    let tmp ← ctx.crypt mode (xor (slice input s.off 16) s.tweak)
    xtsLoop ctx mode leftover input blocks
      { s with
        off := s.off + 16
        tweak := mbedtlsGf128mulXBle s.tweak
        output := storeAt s.output s.off (xor tmp s.tweak) }

def xtsSteal (ctx : XtsContext) (mode : Int) (leftover : Nat) (input : ByteString)
    (s : XtsState) : Except Int ByteString := do
  let t := if mode = mbedtlsAesDecrypt then s.prevTweak else s.tweak
  let output := storeAt s.output s.off (slice s.output (s.off - 16) leftover)
  let tmp := xor (slice input s.off leftover) (t.take leftover) ++
    xor (slice output (s.off - 16 + leftover) (16 - leftover)) (t.drop leftover)
  let tmp ← ctx.crypt mode tmp
  .ok (storeAt output (s.off - 16) (xor tmp t))

def mbedtlsAesCryptXts (ctx : XtsContext) (mode : Int) (length : Nat)
    (dataUnit input output : ByteString) : Except Int ByteString :=
  let blocks := length / 16
  let leftover := length % 16
  if mode ≠ mbedtlsAesEncrypt ∧ mode ≠ mbedtlsAesDecrypt then .error mbedtlsErrAesBadInputData
  else if length < 16 then .error mbedtlsErrAesInvalidInputLength
  else if length > 2 ^ 20 * 16 then .error mbedtlsErrAesInvalidInputLength
  else do
    let tweak ← ctx.tweak mbedtlsAesEncrypt dataUnit
    let s ← xtsLoop ctx mode leftover input blocks
      { off := 0, tweak := tweak, prevTweak := [], output := output }
    if leftover ≠ 0 then xtsSteal ctx mode leftover input s else .ok s.output

/-! ## Tweaks -/

noncomputable def element (t : ByteString) : GF128 := ofLow x 128 (ofLE t)

theorem ofLow_one (v : Nat) : ofLow x 1 v = if v % 2 = 1 then 1 else 0 := by
  unfold ofLow ofBits
  simp [Nat.testBit_zero]

theorem length_mbedtlsGf128mulXBle (t : ByteString) : (mbedtlsGf128mulXBle t).length = 16 := by
  unfold mbedtlsGf128mulXBle
  simp

theorem ofLow_double (v : Nat) :
    x * ofLow x 64 v = ofLow x 64 (2 * (v % 2 ^ 63)) + x ^ 64 * ofLow x 1 (v / 2 ^ 63) := by
  have hlt : v % 2 ^ 63 < 2 ^ 63 := Nat.mod_lt _ (by decide)
  have hsplit := ofLow_append x 1 (v / 2 ^ 63) hlt
  have hlow := ofLow_mul x 63 1 (v % 2 ^ 63)
  rw [Nat.div_add_mod] at hsplit
  rw [show 63 + 1 = 64 by rfl] at hsplit
  rw [pow_one x, Nat.pow_one, show 1 + 63 = 64 by rfl] at hlow
  rw [hsplit, hlow]
  ring

theorem element_mbedtlsGf128mulXBle {t : ByteString} (h : t.length = 16) :
    element (mbedtlsGf128mulXBle t) = x * element t := by
  obtain ⟨s0, s1, rfl, h0, h1⟩ : ∃ s0 s1, t = s0 ++ s1 ∧ s0.length = 8 ∧ s1.length = 8 :=
    ⟨t.take 8, t.drop 8, (List.take_append_drop 8 t).symm, by simp [h], by simp [h]⟩
  have hslice0 : slice (s0 ++ s1) 0 8 = s0 := slice_head h0
  have hslice1 : slice (s0 ++ s1) 8 8 = s1 := by
    rw [slice_tail (by omega), h0, slice_all h1]
  have ha := ofLE_lt s0
  have hb := ofLE_lt s1
  rw [h0] at ha
  rw [h1] at hb
  rw [show 256 ^ 8 = 2 ^ 64 by norm_num] at ha hb
  have hsum : ofLE (s0 ++ s1) = 2 ^ 64 * ofLE s1 + ofLE s0 := by
    rw [ofLE_append, h0, Nat.add_comm, show 256 ^ 8 = 2 ^ 64 by norm_num]
  have hwords : element (s0 ++ s1) = ofLow x 64 (ofLE s0) + x ^ 64 * ofLow x 64 (ofLE s1) := by
    unfold element
    have happend := ofLow_append x 64 (ofLE s1) ha
    rw [show 64 + 64 = 128 by rfl] at happend
    rw [hsum, happend]
  unfold mbedtlsGf128mulXBle
  rw [hslice0, hslice1]
  simp only
  generalize hA : BitVec.ofNat 64 (ofLE s0) = a
  generalize hB : BitVec.ofNat 64 (ofLE s1) = b
  have haNat : a.toNat = ofLE s0 := by
    rw [← hA, BitVec.toNat_ofNat, Nat.mod_eq_of_lt ha]
  have hbNat : b.toNat = ofLE s1 := by
    rw [← hB, BitVec.toNat_ofNat, Nat.mod_eq_of_lt hb]
  -- the reduction, where the highest bit is set
  have hreduce : ofLow x 64 (0x0087#64 >>> (8#64 - ((b >>> 63) <<< 3))).toNat =
      x ^ 128 * ofLow x 1 (ofLE s1 / 2 ^ 63) := by
    have htop : (b >>> 63).toNat = ofLE s1 / 2 ^ 63 := by
      rw [BitVec.toNat_ushiftRight, hbNat, Nat.shiftRight_eq_div_pow]
    have hcases : ofLE s1 / 2 ^ 63 = 0 ∨ ofLE s1 / 2 ^ 63 = 1 := by omega
    rcases hcases with hzero | hone
    · have hbit : b >>> 63 = 0#64 := BitVec.eq_of_toNat_eq (htop.trans hzero)
      rw [hbit, hzero, ofLow_zero, mul_zero,
        show (0x0087#64 >>> (8#64 - (0#64 <<< 3))).toNat = 0 by decide, ofLow_zero]
    have hbit : b >>> 63 = 1#64 := BitVec.eq_of_toNat_eq (htop.trans hone)
    rw [hbit, hone, show (0x0087#64 >>> (8#64 - (1#64 <<< 3))).toNat = 0x87 by decide, ofLow_one,
      if_pos rfl, mul_one, x_pow]
    unfold ofLow ofBits
    simp [Finset.sum_range_succ, Nat.testBit]
    ring
  have hra : ofLow x 64 ((a <<< 1) ^^^ (0x0087#64 >>> (8#64 - ((b >>> 63) <<< 3)))).toNat =
      ofLow x 64 (2 * (ofLE s0 % 2 ^ 63)) + x ^ 128 * ofLow x 1 (ofLE s1 / 2 ^ 63) := by
    have hshift : (a <<< 1).toNat = 2 * (ofLE s0 % 2 ^ 63) := by
      rw [BitVec.toNat_shiftLeft, haNat, Nat.shiftLeft_eq]
      omega
    rw [BitVec.toNat_xor, ofLow_xor, hreduce, hshift]
  have hrb : ofLow x 64 ((a >>> 63) ||| (b <<< 1)).toNat =
      ofLow x 1 (ofLE s0 / 2 ^ 63) + ofLow x 64 (2 * (ofLE s1 % 2 ^ 63)) := by
    have hbit : ofLE s0 / 2 ^ 63 < 2 ^ 1 := by omega
    have hvalue : ((a >>> 63) ||| (b <<< 1)).toNat =
        2 ^ 1 * (ofLE s1 % 2 ^ 63) + ofLE s0 / 2 ^ 63 := by
      rw [BitVec.toNat_or, BitVec.toNat_ushiftRight, BitVec.toNat_shiftLeft, haNat, hbNat,
        Nat.shiftLeft_eq, Nat.shiftRight_eq_div_pow, Nat.or_comm,
        show ofLE s1 * 2 ^ 1 % 2 ^ 64 = 2 ^ 1 * (ofLE s1 % 2 ^ 63) by omega]
      exact (Nat.two_pow_add_eq_or_of_lt hbit _).symm
    have happend := ofLow_append x 63 (ofLE s1 % 2 ^ 63) hbit
    have hzero := ofLow_mul x 63 1 (ofLE s1 % 2 ^ 63)
    rw [show 1 + 63 = 64 by rfl] at hzero
    rw [show 1 + 63 = 64 by rfl] at happend
    rw [hvalue, happend, ← hzero, Nat.pow_one]
  generalize (a <<< 1) ^^^ (0x0087#64 >>> (8#64 - ((b >>> 63) <<< 3))) = ra at hra
  generalize (a >>> 63) ||| (b <<< 1) = rb at hrb
  have hresult : element (toLE 8 ra.toNat ++ toLE 8 rb.toNat) =
      ofLow x 64 ra.toNat + x ^ 64 * ofLow x 64 rb.toNat := by
    unfold element
    have happend := ofLow_append x 64 rb.toNat ra.isLt
    rw [show 64 + 64 = 128 by rfl] at happend
    rw [ofLE_append, length_toLE, ofLE_toLE_of_lt ra.isLt, ofLE_toLE_of_lt rb.isLt, Nat.add_comm,
      show 256 ^ 8 = 2 ^ 64 by norm_num, happend]
  rw [hresult, hra, hrb, hwords]
  linear_combination -ofLow_double (ofLE s0) - x ^ 64 * ofLow_double (ofLE s1)

/-- The tweak of block `j`. -/
def tweakAt (t : ByteString) (j : Nat) : ByteString := mbedtlsGf128mulXBle^[j] t

theorem length_tweakAt {t : ByteString} (h : t.length = 16) (j : Nat) :
    (tweakAt t j).length = 16 := by
  unfold tweakAt
  cases j with
  | zero => exact h
  | succ j =>
    rw [Function.iterate_succ_apply']
    exact length_mbedtlsGf128mulXBle _

theorem element_tweakAt {t : ByteString} (h : t.length = 16) (j : Nat) :
    element (tweakAt t j) = x ^ j * element t := by
  induction j with
  | zero => rw [pow_zero, one_mul]; rfl
  | succ j ih =>
    have hstep : tweakAt t (j + 1) = mbedtlsGf128mulXBle (tweakAt t j) :=
      Function.iterate_succ_apply' _ _ _
    rw [hstep, element_mbedtlsGf128mulXBle (length_tweakAt h j), ih, pow_succ]
    ring

theorem tweakAt_succ (t : ByteString) (j : Nat) :
    tweakAt (mbedtlsGf128mulXBle t) j = tweakAt t (j + 1) :=
  (Function.iterate_succ_apply _ _ _).symm

/-! ## IEEE 1619 -/

def xtsBlock (F : ByteString → ByteString) (t block : ByteString) : ByteString :=
  xor (F (xor block t)) t

/-- The blocks from byte `off` on, with the tweaks from `t` on. -/
def xtsBlocks (F : ByteString → ByteString) (t data : ByteString) (off n : Nat) : ByteString :=
  (List.range n).flatMap fun j => xtsBlock F (tweakAt t j) (slice data (off + 16 * j) 16)

/-- XTS of a data unit, where `first` and `second` are the tweaks of its last two blocks. -/
def xtsUnit (F : ByteString → ByteString) (t first second data : ByteString) : ByteString :=
  let m := data.length / 16
  let b := data.length % 16
  if b = 0 then xtsBlocks F t data 0 m
  else
    let whole := xtsBlock F first (slice data (16 * (m - 1)) 16)
    let stolen := xtsBlock F second (slice data (16 * m) b ++ whole.drop b)
    xtsBlocks F t data 0 (m - 1) ++ stolen ++ whole.take b

/-- The encryption of a data unit, from the encrypted tweak `t`. -/
def xtsEncrypt (E : ByteString → ByteString) (t data : ByteString) : ByteString :=
  xtsUnit E t (tweakAt t (data.length / 16 - 1)) (tweakAt t (data.length / 16)) data

def xtsDecrypt (D : ByteString → ByteString) (t data : ByteString) : ByteString :=
  xtsUnit D t (tweakAt t (data.length / 16)) (tweakAt t (data.length / 16 - 1)) data

/-! ## The loop -/

structure Ciphers (ctx : XtsContext) (E D T : ByteString → ByteString) : Prop where
  encrypt : ∀ b : ByteString, b.length = 16 → ctx.crypt mbedtlsAesEncrypt b = .ok (E b)
  decrypt : ∀ b : ByteString, b.length = 16 → ctx.crypt mbedtlsAesDecrypt b = .ok (D b)
  tweak : ∀ b : ByteString, b.length = 16 → ctx.tweak mbedtlsAesEncrypt b = .ok (T b)
  length_encrypt : ∀ b : ByteString, b.length = 16 → (E b).length = 16
  length_decrypt : ∀ b : ByteString, b.length = 16 → (D b).length = 16
  length_tweak : ∀ b : ByteString, b.length = 16 → (T b).length = 16
  decrypt_encrypt : ∀ b : ByteString, b.length = 16 → D (E b) = b

section Loop

variable {ctx : XtsContext} {mode : Int} {F : ByteString → ByteString}

structure IsCipher (ctx : XtsContext) (mode : Int) (F : ByteString → ByteString) : Prop where
  run : ∀ b : ByteString, b.length = 16 → ctx.crypt mode b = .ok (F b)
  length : ∀ b : ByteString, b.length = 16 → (F b).length = 16

theorem IsCipher.length_xtsBlock (hF : IsCipher ctx mode F) {t block : ByteString}
    (ht : t.length = 16) (hb : block.length = 16) : (xtsBlock F t block).length = 16 := by
  unfold xtsBlock
  rw [length_xor, hF.length _ (by rw [length_xor, ht, hb]; rfl), ht]
  rfl

theorem xtsBlocks_succ (F : ByteString → ByteString) (t data : ByteString) (off n : Nat) :
    xtsBlocks F t data off (n + 1) =
      xtsBlock F t (slice data off 16) ++
        xtsBlocks F (mbedtlsGf128mulXBle t) data (off + 16) n := by
  unfold xtsBlocks
  rw [List.range_succ_eq_map, List.flatMap_cons, List.flatMap_map]
  congr 1
  apply List.flatMap_congr
  intro j _
  rw [tweakAt_succ, Nat.mul_succ, Nat.add_right_comm, Nat.add_assoc]

theorem xtsBlocks_snoc (F : ByteString → ByteString) (t data : ByteString) (off n : Nat) :
    xtsBlocks F t data off (n + 1) =
      xtsBlocks F t data off n ++ xtsBlock F (tweakAt t n) (slice data (off + 16 * n) 16) := by
  unfold xtsBlocks
  rw [List.range_succ, List.flatMap_append, List.flatMap_singleton]

theorem IsCipher.length_xtsBlocks (hF : IsCipher ctx mode F) {t data : ByteString}
    (ht : t.length = 16) {off n : Nat} (hdata : off + 16 * n ≤ data.length) :
    (xtsBlocks F t data off n).length = 16 * n := by
  induction n with
  | zero => rfl
  | succ n ih =>
    rw [xtsBlocks_snoc, List.length_append, ih (by omega),
      hF.length_xtsBlock (length_tweakAt ht n) (by rw [length_slice]; omega)]
    omega

theorem storeAt_next {written mem data : ByteString} (h : data.length ≤ mem.length) :
    storeAt (written ++ mem) written.length data = written ++ data ++ mem.drop data.length := by
  conv_lhs => rw [← List.take_append_drop data.length mem]
  rw [storeAt_middle rfl (by rw [List.length_take]; omega), List.append_assoc]

theorem xtsLoop_pass (hF : IsCipher ctx mode F) {leftover n : Nat} {input : ByteString}
    (hplain : ¬ (leftover ≠ 0 ∧ mode = mbedtlsAesDecrypt ∧ n = 0)) {t prev written mem : ByteString}
    (ht : t.length = 16) (hinput : written.length + 16 ≤ input.length) (hmem : 16 ≤ mem.length) :
    ∃ block, block = xtsBlock F t (slice input written.length 16) ∧
      (written ++ block).length = written.length + 16 ∧
      xtsLoop ctx mode leftover input (n + 1)
          { off := written.length, tweak := t, prevTweak := prev, output := written ++ mem } =
        xtsLoop ctx mode leftover input n
          { off := (written ++ block).length, tweak := mbedtlsGf128mulXBle t, prevTweak := prev
            output := written ++ block ++ mem.drop 16 } := by
  have hslice : (slice input written.length 16).length = 16 := by
    rw [length_slice]
    omega
  have hrun := hF.run (xor (slice input written.length 16) t) (by rw [length_xor, hslice, ht]; rfl)
  obtain ⟨block, hblock⟩ : ∃ block, block = xtsBlock F t (slice input written.length 16) := ⟨_, rfl⟩
  have hlen : block.length = 16 := hblock ▸ hF.length_xtsBlock ht hslice
  have hwritten : (written ++ block).length = written.length + 16 := by
    rw [List.length_append, hlen]
  refine ⟨block, hblock, hwritten, ?_⟩
  rw [xtsLoop]
  rw [if_neg hplain]
  simp only [hrun]
  show xtsLoop ctx mode leftover input n
    { off := written.length + 16, tweak := mbedtlsGf128mulXBle t, prevTweak := prev
      output := storeAt (written ++ mem) written.length
        (xtsBlock F t (slice input written.length 16)) } = _
  rw [← hblock, storeAt_next (by omega), hlen, hwritten]

theorem xtsLoop_plain (hF : IsCipher ctx mode F) {leftover : Nat} {input : ByteString}
    (hplain : ¬ (leftover ≠ 0 ∧ mode = mbedtlsAesDecrypt)) {n : Nat}
    {t prev written mem : ByteString} (ht : t.length = 16)
    (hinput : written.length + 16 * n ≤ input.length) (hmem : 16 * n ≤ mem.length) :
    xtsLoop ctx mode leftover input n
        { off := written.length, tweak := t, prevTweak := prev, output := written ++ mem } =
      .ok { off := written.length + 16 * n, tweak := tweakAt t n, prevTweak := prev
            output := written ++ xtsBlocks F t input written.length n ++ mem.drop (16 * n) } := by
  induction n generalizing t written mem with
  | zero =>
    unfold xtsLoop xtsBlocks tweakAt
    simp
  | succ n ih =>
    obtain ⟨block, hblock, hwritten, hpass⟩ := @xtsLoop_pass _ _ _ hF leftover n input
      (fun h => hplain ⟨h.1, h.2.1⟩) t prev written mem ht (by omega) (by omega)
    have hoff : written.length + 16 + 16 * n = written.length + 16 * (n + 1) := by omega
    have hdrop : 16 + 16 * n = 16 * (n + 1) := by omega
    rw [hpass, ih (length_mbedtlsGf128mulXBle t) (by omega) (by rw [List.length_drop]; omega),
      hwritten, tweakAt_succ, xtsBlocks_succ, List.drop_drop, hoff, hdrop, ← hblock]
    simp only [List.append_assoc]

theorem xtsLoop_swap (hF : IsCipher ctx mode F) {leftover : Nat} {input : ByteString}
    (hleft : leftover ≠ 0) (hmode : mode = mbedtlsAesDecrypt) {n : Nat}
    {t prev written mem : ByteString} (ht : t.length = 16)
    (hinput : written.length + 16 * (n + 1) ≤ input.length) (hmem : 16 * (n + 1) ≤ mem.length) :
    xtsLoop ctx mode leftover input (n + 1)
        { off := written.length, tweak := t, prevTweak := prev, output := written ++ mem } =
      .ok { off := written.length + 16 * (n + 1), tweak := tweakAt t (n + 2)
            prevTweak := tweakAt t n
            output := written ++ xtsBlocks F t input written.length n ++
              xtsBlock F (tweakAt t (n + 1)) (slice input (written.length + 16 * n) 16) ++
                mem.drop (16 * (n + 1)) } := by
  induction n generalizing t written mem with
  | zero =>
    have hslice : (slice input written.length 16).length = 16 := by
      rw [length_slice]
      omega
    have hnext := length_mbedtlsGf128mulXBle t
    have hrun := hF.run (xor (slice input written.length 16) (mbedtlsGf128mulXBle t))
      (by rw [length_xor, hslice, hnext]; rfl)
    have hlen := hF.length_xtsBlock hnext hslice
    unfold xtsLoop
    simp only
    rw [if_pos ⟨hleft, hmode, trivial⟩]
    simp only [hrun]
    show xtsLoop ctx mode leftover input 0
      { off := written.length + 16, tweak := tweakAt t 2, prevTweak := t
        output := storeAt (written ++ mem) written.length
          (xtsBlock F (mbedtlsGf128mulXBle t) (slice input written.length 16)) } = _
    rw [storeAt_next (by omega), hlen]
    unfold xtsLoop xtsBlocks
    simp only [List.range_zero, List.flatMap_nil, List.append_nil]
    rfl
  | succ n ih =>
    obtain ⟨block, hblock, hwritten, hpass⟩ := @xtsLoop_pass _ _ _ hF leftover (n + 1) input
      (fun h => absurd h.2.2 (Nat.succ_ne_zero n)) t prev written mem ht (by omega) (by omega)
    have hoff : written.length + 16 + 16 * (n + 1) = written.length + 16 * (n + 1 + 1) := by omega
    have hoff' : written.length + 16 + 16 * n = written.length + 16 * (n + 1) := by omega
    have hdrop : 16 + 16 * (n + 1) = 16 * (n + 1 + 1) := by omega
    rw [hpass, ih (length_mbedtlsGf128mulXBle t) (by omega) (by rw [List.length_drop]; omega),
      hwritten, tweakAt_succ, tweakAt_succ, tweakAt_succ, xtsBlocks_succ, List.drop_drop, hoff,
      hoff', hdrop, ← hblock]
    simp only [List.append_assoc]

/-! ## Ciphertext stealing -/

theorem xtsSteal_spec (hF : IsCipher ctx mode F) {leftover : Nat} {input pre whole mem : ByteString}
    {s : XtsState} (hleft : leftover ≤ 16) (hwhole : whole.length = 16)
    (hoff : s.off = pre.length + 16) (houtput : s.output = pre ++ whole ++ mem)
    (hmem : leftover ≤ mem.length) (hinput : pre.length + 16 + leftover ≤ input.length)
    {t : ByteString} (ht : t.length = 16)
    (htweak : (if mode = mbedtlsAesDecrypt then s.prevTweak else s.tweak) = t) :
    xtsSteal ctx mode leftover input s =
      .ok (pre ++ xtsBlock F t (slice input (pre.length + 16) leftover ++ whole.drop leftover) ++
        whole.take leftover ++ mem.drop leftover) := by
  have hprev : pre.length + 16 - 16 = pre.length := Nat.add_sub_cancel _ _
  have hfirst : slice (pre ++ whole ++ mem) pre.length leftover = whole.take leftover := by
    unfold slice
    rw [List.append_assoc, List.drop_left, List.take_append_of_le_length (by omega)]
  have hlenTake : (whole.take leftover).length = leftover := by
    rw [List.length_take]
    omega
  have hcopy : storeAt (pre ++ whole ++ mem) (pre.length + 16) (whole.take leftover) =
      pre ++ (whole ++ (whole.take leftover ++ mem.drop leftover)) := by
    have hlen : (pre ++ whole).length = pre.length + 16 := by rw [List.length_append, hwhole]
    rw [← hlen, storeAt_next (by omega), hlenTake]
    simp only [List.append_assoc]
  have hsecond : slice (pre ++ (whole ++ (whole.take leftover ++ mem.drop leftover)))
      (pre.length + leftover) (16 - leftover) = whole.drop leftover := by
    unfold slice
    rw [← List.drop_drop, List.drop_left, List.drop_append_of_le_length (by omega),
      List.take_left' (by rw [List.length_drop, hwhole])]
  have hlenIn : (slice input (pre.length + 16) leftover).length = leftover := by
    rw [length_slice]
    omega
  have htmp : xor (slice input (pre.length + 16) leftover) (t.take leftover) ++
      xor (whole.drop leftover) (t.drop leftover) =
        xor (slice input (pre.length + 16) leftover ++ whole.drop leftover) t := by
    conv_rhs => rw [← List.take_append_drop leftover t]
    rw [xor_append (by rw [hlenIn, List.length_take, ht]; omega)]
  have hblock : (slice input (pre.length + 16) leftover ++ whole.drop leftover).length = 16 := by
    rw [List.length_append, hlenIn, List.length_drop, hwhole]
    omega
  have hrun := hF.run (xor (slice input (pre.length + 16) leftover ++ whole.drop leftover) t)
    (by rw [length_xor, hblock, ht]; rfl)
  have hlen := hF.length_xtsBlock ht hblock
  unfold xtsSteal
  simp only [htweak, hoff, houtput, hprev, hfirst, hcopy, hsecond, htmp, hrun]
  show Except.ok (storeAt (pre ++ (whole ++ (whole.take leftover ++ mem.drop leftover))) pre.length
    (xtsBlock F t (slice input (pre.length + 16) leftover ++ whole.drop leftover))) = _
  rw [storeAt_middle rfl (by rw [hwhole, hlen])]
  simp only [List.append_assoc]

end Loop

/-! ## The whole function -/

section Unit

variable {ctx : XtsContext} {E D T : ByteString → ByteString}

theorem Ciphers.encryptCipher (h : Ciphers ctx E D T) : IsCipher ctx mbedtlsAesEncrypt E :=
  ⟨h.encrypt, h.length_encrypt⟩

theorem Ciphers.decryptCipher (h : Ciphers ctx E D T) : IsCipher ctx mbedtlsAesDecrypt D :=
  ⟨h.decrypt, h.length_decrypt⟩

theorem mbedtlsAesCryptXts_encrypt (h : Ciphers ctx E D T) {dataUnit data output : ByteString}
    (hunit : dataUnit.length = 16) (hmin : 16 ≤ data.length) (hmax : data.length ≤ 2 ^ 20 * 16)
    (houtput : data.length ≤ output.length) :
    mbedtlsAesCryptXts ctx mbedtlsAesEncrypt data.length dataUnit data output =
      .ok (xtsEncrypt E (T dataUnit) data ++ output.drop data.length) := by
  have ht := h.length_tweak dataUnit hunit
  have hF := h.encryptCipher
  have hplain : ¬ (data.length % 16 ≠ 0 ∧ mbedtlsAesEncrypt = mbedtlsAesDecrypt) :=
    fun hboth => absurd hboth.2 (by decide)
  have hloop := @xtsLoop_plain ctx mbedtlsAesEncrypt E hF (data.length % 16) data hplain
    (data.length / 16) (T dataUnit) [] [] output ht (by rw [List.length_nil]; omega) (by omega)
  simp only [List.length_nil, List.nil_append, Nat.zero_add] at hloop
  unfold mbedtlsAesCryptXts
  rw [if_neg (by decide), if_neg (by omega), if_neg (by omega), h.tweak dataUnit hunit]
  show (xtsLoop ctx mbedtlsAesEncrypt (data.length % 16) data (data.length / 16)
    { off := 0, tweak := T dataUnit, prevTweak := [], output := output } >>= _) = _
  rw [hloop]
  show (if data.length % 16 ≠ 0 then _ else _) = _
  unfold xtsEncrypt xtsUnit
  by_cases hb : data.length % 16 = 0
  · rw [if_neg (not_ne_iff.mpr hb), if_pos hb]
    have hall : 16 * (data.length / 16) = data.length := by omega
    rw [hall]
  rw [if_pos hb, if_neg hb]
  obtain ⟨k, hk⟩ : ∃ k, data.length / 16 = k + 1 := Nat.exists_eq_add_of_le' (by omega)
  have hlenBlocks : (xtsBlocks E (T dataUnit) data 0 k).length = 16 * k :=
    hF.length_xtsBlocks ht (by omega)
  rw [hk, Nat.add_sub_cancel, xtsBlocks_snoc]
  simp only [Nat.zero_add]
  rw [@xtsSteal_spec ctx mbedtlsAesEncrypt E hF (data.length % 16) data
    (xtsBlocks E (T dataUnit) data 0 k)
    (xtsBlock E (tweakAt (T dataUnit) k) (slice data (16 * k) 16))
    (output.drop (16 * (k + 1))) _ (by omega)
    (hF.length_xtsBlock (length_tweakAt ht k) (by rw [length_slice]; omega))
    (by rw [hlenBlocks]; rfl) rfl (by rw [List.length_drop]; omega) (by omega)
    (tweakAt (T dataUnit) (k + 1)) (length_tweakAt ht _) (if_neg (by decide)), hlenBlocks,
    List.drop_drop]
  have hlast : 16 * k + 16 = 16 * (k + 1) := by omega
  have hend : 16 * (k + 1) + data.length % 16 = data.length := by omega
  rw [hlast, hend]

theorem mbedtlsAesCryptXts_decrypt (h : Ciphers ctx E D T) {dataUnit data output : ByteString}
    (hunit : dataUnit.length = 16) (hmin : 16 ≤ data.length) (hmax : data.length ≤ 2 ^ 20 * 16)
    (houtput : data.length ≤ output.length) :
    mbedtlsAesCryptXts ctx mbedtlsAesDecrypt data.length dataUnit data output =
      .ok (xtsDecrypt D (T dataUnit) data ++ output.drop data.length) := by
  have ht := h.length_tweak dataUnit hunit
  have hF := h.decryptCipher
  unfold mbedtlsAesCryptXts
  rw [if_neg (by decide), if_neg (by omega), if_neg (by omega), h.tweak dataUnit hunit]
  show (xtsLoop ctx mbedtlsAesDecrypt (data.length % 16) data (data.length / 16)
    { off := 0, tweak := T dataUnit, prevTweak := [], output := output } >>= _) = _
  unfold xtsDecrypt xtsUnit
  by_cases hb : data.length % 16 = 0
  · have hplain : ¬ (data.length % 16 ≠ 0 ∧ mbedtlsAesDecrypt = mbedtlsAesDecrypt) :=
      fun hboth => hboth.1 hb
    have hloop := @xtsLoop_plain ctx mbedtlsAesDecrypt D hF (data.length % 16) data hplain
      (data.length / 16) (T dataUnit) [] [] output ht (by rw [List.length_nil]; omega) (by omega)
    simp only [List.length_nil, List.nil_append, Nat.zero_add] at hloop
    rw [hloop]
    show (if data.length % 16 ≠ 0 then _ else _) = _
    rw [if_neg (not_ne_iff.mpr hb), if_pos hb]
    have hall : 16 * (data.length / 16) = data.length := by omega
    rw [hall]
  · obtain ⟨k, hk⟩ : ∃ k, data.length / 16 = k + 1 := Nat.exists_eq_add_of_le' (by omega)
    have hloop := @xtsLoop_swap ctx mbedtlsAesDecrypt D hF (data.length % 16) data hb rfl
      k (T dataUnit) [] [] output ht (by rw [List.length_nil]; omega) (by omega)
    simp only [List.length_nil, List.nil_append, Nat.zero_add] at hloop
    have hlenBlocks : (xtsBlocks D (T dataUnit) data 0 k).length = 16 * k :=
      hF.length_xtsBlocks ht (by omega)
    rw [hk, hloop]
    show (if data.length % 16 ≠ 0 then _ else _) = _
    rw [if_pos hb, if_neg hb, Nat.add_sub_cancel]
    rw [@xtsSteal_spec ctx mbedtlsAesDecrypt D hF (data.length % 16) data
      (xtsBlocks D (T dataUnit) data 0 k)
      (xtsBlock D (tweakAt (T dataUnit) (k + 1)) (slice data (16 * k) 16))
      (output.drop (16 * (k + 1))) _ (by omega)
      (hF.length_xtsBlock (length_tweakAt ht _) (by rw [length_slice]; omega))
      (by rw [hlenBlocks]; rfl) rfl (by rw [List.length_drop]; omega) (by omega)
      (tweakAt (T dataUnit) k) (length_tweakAt ht _) (if_pos rfl), hlenBlocks,
      List.drop_drop]
    have hlast : 16 * k + 16 = 16 * (k + 1) := by omega
    have hend : 16 * (k + 1) + data.length % 16 = data.length := by omega
    rw [hlast, hend]

/-! ## Decryption undoes encryption -/

theorem xtsBlock_inverse (h : Ciphers ctx E D T) {t block : ByteString} (ht : t.length = 16)
    (hb : block.length = 16) : xtsBlock D t (xtsBlock E t block) = block := by
  have hin : (xor block t).length = 16 := by
    rw [length_xor, hb, ht]
    rfl
  unfold xtsBlock
  rw [xor_xor (by rw [h.length_encrypt _ hin, ht]), h.decrypt_encrypt _ hin,
    xor_xor (by rw [hb, ht])]

theorem xtsBlocks_inverse (h : Ciphers ctx E D T) {t data : ByteString} (ht : t.length = 16)
    {n : Nat} (hdata : 16 * n ≤ data.length) (rest : ByteString) :
    xtsBlocks D t (xtsBlocks E t data 0 n ++ rest) 0 n = data.take (16 * n) := by
  induction n generalizing rest with
  | zero => rfl
  | succ n ih =>
    have hslice : (slice data (16 * n) 16).length = 16 := by
      rw [length_slice]
      omega
    have hlen := h.encryptCipher.length_xtsBlock (length_tweakAt ht n) hslice
    have hlenAll : (xtsBlocks E t data 0 n).length = 16 * n :=
      h.encryptCipher.length_xtsBlocks ht (by omega)
    have hget : slice (xtsBlocks E t data 0 n ++
        (xtsBlock E (tweakAt t n) (slice data (16 * n) 16) ++ rest)) (16 * n) 16 =
          xtsBlock E (tweakAt t n) (slice data (16 * n) 16) := by
      rw [slice_tail (Nat.le_of_eq hlenAll), hlenAll, Nat.sub_self, slice_head hlen]
    rw [xtsBlocks_snoc E, List.append_assoc, xtsBlocks_snoc D]
    simp only [Nat.zero_add]
    rw [hget, ih (by omega), xtsBlock_inverse h (length_tweakAt ht n) hslice, Nat.mul_succ,
      List.take_add]
    rfl

theorem length_xtsEncrypt (h : Ciphers ctx E D T) {t data : ByteString} (ht : t.length = 16)
    (hmin : 16 ≤ data.length) : (xtsEncrypt E t data).length = data.length := by
  have hF := h.encryptCipher
  unfold xtsEncrypt xtsUnit
  simp only
  split
  · rw [hF.length_xtsBlocks ht (by omega)]
    omega
  have hslice : (slice data (16 * (data.length / 16 - 1)) 16).length = 16 := by
    rw [length_slice]
    omega
  have hwhole := hF.length_xtsBlock (length_tweakAt ht (data.length / 16 - 1)) hslice
  rw [List.length_append, List.length_append, hF.length_xtsBlocks ht (by omega),
    List.length_take, hwhole, hF.length_xtsBlock (length_tweakAt ht _) (by
      rw [List.length_append, length_slice, List.length_drop, hwhole]
      omega)]
  omega

theorem xtsDecrypt_xtsEncrypt (h : Ciphers ctx E D T) {t data : ByteString} (ht : t.length = 16)
    (hmin : 16 ≤ data.length) : xtsDecrypt D t (xtsEncrypt E t data) = data := by
  have hF := h.encryptCipher
  have hlength := length_xtsEncrypt h ht hmin
  unfold xtsDecrypt xtsUnit
  rw [hlength]
  unfold xtsEncrypt xtsUnit
  simp only
  by_cases hb : data.length % 16 = 0
  · rw [if_pos hb, if_pos hb]
    have hroom : 16 * (data.length / 16) ≤ data.length := by omega
    have hinv := xtsBlocks_inverse h ht hroom []
    rw [List.append_nil] at hinv
    rw [hinv, List.take_of_length_le (by omega)]
  · rw [if_neg hb, if_neg hb]
    obtain ⟨k, hk⟩ : ∃ k, data.length / 16 = k + 1 := Nat.exists_eq_add_of_le' (by omega)
    have hend : 16 * (k + 1) + data.length % 16 = data.length := by omega
    generalize data.length % 16 = b at hb hend
    rw [hk, Nat.add_sub_cancel]
    have hlast : (slice data (16 * k) 16).length = 16 := by
      rw [length_slice]
      omega
    have hpart : (slice data (16 * (k + 1)) b).length = b := by
      rw [length_slice]
      omega
    have hwhole := hF.length_xtsBlock (length_tweakAt ht k) hlast
    have hinverse := xtsBlock_inverse h (length_tweakAt ht k) hlast
    generalize xtsBlock E (tweakAt t k) (slice data (16 * k) 16) = whole at hwhole hinverse
    have hin : (slice data (16 * (k + 1)) b ++ whole.drop b).length = 16 := by
      rw [List.length_append, hpart, List.length_drop, hwhole]
      omega
    have hstolen := hF.length_xtsBlock (length_tweakAt ht (k + 1)) hin
    have hinverse' := xtsBlock_inverse h (length_tweakAt ht (k + 1)) hin
    generalize xtsBlock E (tweakAt t (k + 1)) (slice data (16 * (k + 1)) b ++ whole.drop b) =
      stolen at hstolen hinverse'
    have hblocks : (xtsBlocks E t data 0 k).length = 16 * k := hF.length_xtsBlocks ht (by omega)
    have hfirst :
        slice (xtsBlocks E t data 0 k ++ stolen ++ whole.take b) (16 * k) 16 = stolen := by
      rw [List.append_assoc, slice_tail (Nat.le_of_eq hblocks), hblocks, Nat.sub_self,
        slice_head hstolen]
    have hsecond : slice (xtsBlocks E t data 0 k ++ stolen ++ whole.take b) (16 * (k + 1)) b =
        whole.take b := by
      have hlen : (xtsBlocks E t data 0 k ++ stolen).length = 16 * (k + 1) := by
        rw [List.length_append, hblocks, hstolen]
        omega
      rw [slice_tail (Nat.le_of_eq hlen), hlen, Nat.sub_self, slice_all (by
        rw [List.length_take, hwhole]
        omega)]
    rw [hfirst, hsecond, hinverse', List.drop_left' hpart, List.take_left' hpart,
      List.take_append_drop, hinverse, List.append_assoc (xtsBlocks E t data 0 k),
      xtsBlocks_inverse h ht (by omega)]
    have htake : data.take (16 * k) ++ slice data (16 * k) 16 = data.take (16 * (k + 1)) := by
      rw [Nat.mul_succ, List.take_add]
      rfl
    have hrest : slice data (16 * (k + 1)) b = data.drop (16 * (k + 1)) := by
      unfold slice
      rw [List.take_of_length_le (by rw [List.length_drop]; omega)]
    rw [htake, hrest, List.take_append_drop]

end Unit

theorem element_injective {s t : ByteString} (hs : s.length = 16) (ht : t.length = 16)
    (h : element s = element t) : s = t := by
  have hlt : ∀ u : ByteString, u.length = 16 → ofLE u < 2 ^ 128 := by
    intro u hu
    have hlt := ofLE_lt u
    rw [hu] at hlt
    exact hlt
  have hvalue : ofLE s = ofLE t := by
    apply Nat.eq_of_testBit_eq
    intro i
    by_cases hi : i < 128
    · exact ofBits_injective h hi
    · have hpow : 2 ^ 128 ≤ 2 ^ i := Nat.pow_le_pow_right (by decide) (by omega)
      rw [Nat.testBit_lt_two_pow (Nat.lt_of_lt_of_le (hlt s hs) hpow),
        Nat.testBit_lt_two_pow (Nat.lt_of_lt_of_le (hlt t ht) hpow)]
  rw [← toLE_ofLE s, ← toLE_ofLE t, hvalue, hs, ht]

/-- **AES-XTS.** An encryption is that of IEEE 1619 with the first tweak times the powers of `X`;
it is written over the first bytes of the output alone, and the decryption undoes it. -/
theorem aes_xts_standard_and_invertible {ctx : XtsContext} {E D T : ByteString → ByteString}
    (h : Ciphers ctx E D T) {dataUnit data : ByteString} (hunit : dataUnit.length = 16)
    (hmin : 16 ≤ data.length) (hmax : data.length ≤ 2 ^ 24) {output output' : ByteString}
    (houtput : data.length ≤ output.length) (houtput' : data.length ≤ output'.length) :
    mbedtlsAesCryptXts ctx mbedtlsAesEncrypt data.length dataUnit data output =
        .ok (xtsEncrypt E (T dataUnit) data ++ output.drop data.length) ∧
      (xtsEncrypt E (T dataUnit) data).length = data.length ∧
      mbedtlsAesCryptXts ctx mbedtlsAesDecrypt data.length dataUnit
          (xtsEncrypt E (T dataUnit) data) output' =
        .ok (data ++ output'.drop data.length) ∧
      ∀ j, (tweakAt (T dataUnit) j).length = 16 ∧
        ∀ t : ByteString, t.length = 16 →
          (t = tweakAt (T dataUnit) j ↔ element t = x ^ j * element (T dataUnit)) := by
  have ht := h.length_tweak dataUnit hunit
  have hlength := length_xtsEncrypt h ht hmin
  refine ⟨mbedtlsAesCryptXts_encrypt h hunit hmin hmax houtput, hlength, ?_, ?_⟩
  · have hroom : (xtsEncrypt E (T dataUnit) data).length ≤ output'.length := by rwa [hlength]
    have hrun := mbedtlsAesCryptXts_decrypt h hunit (by rwa [hlength]) (by rwa [hlength]) hroom
    rwa [hlength, xtsDecrypt_xtsEncrypt h ht hmin] at hrun
  intro j
  have hlen := length_tweakAt ht j
  have helem := element_tweakAt ht j
  refine ⟨hlen, fun t htlen => ⟨?_, fun heq => ?_⟩⟩
  · rintro rfl
    exact helem
  · exact element_injective htlen hlen (heq.trans helem.symm)

def reverseContext : XtsContext where
  crypt _ b := .ok b.reverse
  tweak _ b := .ok b

theorem ciphers_reverseContext : Ciphers reverseContext List.reverse List.reverse id where
  encrypt _ _ := rfl
  decrypt _ _ := rfl
  tweak _ _ := rfl
  length_encrypt b hb := by rw [List.length_reverse, hb]
  length_decrypt b hb := by rw [List.length_reverse, hb]
  length_tweak _ hb := hb
  decrypt_encrypt b _ := List.reverse_reverse b

theorem aes_xts_standard_and_invertible_stealing :
    mbedtlsAesCryptXts reverseContext mbedtlsAesDecrypt 21 (List.replicate 16 3)
        (xtsEncrypt List.reverse (List.replicate 16 3) (List.replicate 21 5))
        (List.replicate 30 0) =
      .ok (List.replicate 21 5 ++ (List.replicate 30 0).drop 21) :=
  (@aes_xts_standard_and_invertible reverseContext List.reverse List.reverse id
    ciphers_reverseContext (List.replicate 16 3) (List.replicate 21 5) List.length_replicate
    (by decide) (by decide) (List.replicate 30 0) (List.replicate 30 0) (by decide)
    (by decide)).2.2.1

end TfPsaCrypto.AesXts
