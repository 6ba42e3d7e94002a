import TfPsaCrypto.Library.Cmac
import TfPsaCrypto.Utilities.ConstantTimeMasks

/-!
# CMAC

The functions of `cmac.c`, for pointers that are not null. The keyed block cipher is a parameter
that may fail.
-/

namespace TfPsaCrypto.CipherCmac

open Bytes Blocks

/-! ## The context -/

structure MbedtlsCmacContext where
  state : Block 16
  unprocessedBlock : Block 16
  unprocessedLen : Nat

/-- The context that `mbedtls_cipher_cmac_starts` allocates. -/
def mbedtlsCipherCmacStarts : MbedtlsCmacContext :=
  { state := Block.zero, unprocessedBlock := Block.zero, unprocessedLen := 0 }

/-! ## Subkeys -/

def getUint32Be (input : Block 16) (i : Nat) : UInt32 :=
  UInt32.ofNat (ofBE (slice input.toList i 4))

/-- One pass of the loop of `cmac_multiply_by_u`, in front of the bytes already written. -/
def multiplyPass (input : Block 16) (acc : ByteString × UInt32) (i : Nat) : ByteString × UInt32 :=
  let i32 := getUint32Be input i
  let newOverflow := i32 >>> 31
  (toBE 4 ((i32 <<< 1) ||| acc.2).toNat ++ acc.1, newOverflow)

def cmacMultiplyByU (input : Block 16) : Block 16 :=
  let output := Block.ofList ([12, 8, 4, 0].foldl (multiplyPass input) ([], 0)).1
  let rN := (mbedtlsCtUintIfElse0 (mbedtlsCtBool (input 0 >>> 7).toUInt64) 0x87).toUInt8
  output.xorAt 15 [rN]

/-! ## Calls -/

variable (e : Block 16 → Except Int (Block 16))

def cmacGenerateSubkeys : Except Int (Block 16 × Block 16) :=
  match e Block.zero with
  | .error ret => .error ret
  | .ok l =>
    let k1 := cmacMultiplyByU l
    .ok (k1, cmacMultiplyByU k1)

def cmacPad (lastBlock : Block 16) (lastBlockLen : Nat) : Block 16 :=
  fun j => if j < lastBlockLen then lastBlock j else if j = lastBlockLen then 0x80 else 0x00

def cmacUpdateHeld (ctx : MbedtlsCmacContext) (input : ByteString) :
    Except (Int × MbedtlsCmacContext) (MbedtlsCmacContext × ByteString) :=
  let room := 16 - ctx.unprocessedLen
  if ctx.unprocessedLen > 0 ∧ input.length > room then
    let block := ctx.unprocessedBlock.store ctx.unprocessedLen (input.take room)
    let state := block.xor ctx.state
    match e state with
    | .error ret => .error (ret, { ctx with state := state, unprocessedBlock := block })
    | .ok state =>
      .ok ({ state := state, unprocessedBlock := block, unprocessedLen := 0 }, input.drop room)
  else .ok (ctx, input)

def cmacUpdateLoop : Nat → Block 16 → ByteString → Except (Int × Block 16) (Block 16 × ByteString)
  | 0, state, input => .ok (state, input)
  | n + 1, state, input =>
    let state := (Block.ofList (input.take 16)).xor state
    match e state with
    | .error ret => .error (ret, state)
    | .ok state => cmacUpdateLoop n state (input.drop 16)

/-- The blocks of an input that starts on a block, or that the block of the last call can hold. -/
def cmacUpdateBlocks (ctx : MbedtlsCmacContext) (input : ByteString) : Int × MbedtlsCmacContext :=
  -- the number of blocks, with a last one that is held back although it may be complete
  let n := (input.length + 16 - 1) / 16
  match cmacUpdateLoop e (n - 1) ctx.state input with
  | .error (ret, state) => (ret, { ctx with state := state })
  | .ok (state, input) =>
    if input.length > 0 then
      (0, { state := state
            unprocessedBlock := ctx.unprocessedBlock.store ctx.unprocessedLen input
            unprocessedLen := ctx.unprocessedLen + input.length })
    else (0, { ctx with state := state })

def mbedtlsCipherCmacUpdate (ctx : MbedtlsCmacContext) (input : ByteString) :
    Int × MbedtlsCmacContext :=
  match cmacUpdateHeld e ctx input with
  | .error r => r
  | .ok (ctx, input) => cmacUpdateBlocks e ctx input

/-- `mbedtls_cipher_cmac_finish`. What `cmac_generate_subkeys` returns is not looked at. -/
def mbedtlsCipherCmacFinish (ctx : MbedtlsCmacContext) :
    Int × MbedtlsCmacContext × Option (Block 16) :=
  let (k1, k2) :=
    match cmacGenerateSubkeys e with
    | .error _ => (Block.zero, Block.zero)
    | .ok ks => ks
  let mLast :=
    if ctx.unprocessedLen < 16 then
      (cmacPad ctx.unprocessedBlock ctx.unprocessedLen).xor k2
    else ctx.unprocessedBlock.xor k1
  let wiped := { state := Block.zero, unprocessedBlock := Block.zero, unprocessedLen := 0 }
  match e (mLast.xor ctx.state) with
  | .error ret => (ret, wiped, none)
  | .ok state => (0, wiped, some state)

def mbedtlsCipherCmacReset (_ctx : MbedtlsCmacContext) : Int × MbedtlsCmacContext :=
  (0, { state := Block.zero, unprocessedBlock := Block.zero, unprocessedLen := 0 })

/-! ## Runs -/

inductive CmacCall where
  | update (input : ByteString)
  | finish
  | reset
  deriving DecidableEq, Repr

def cmacCall (ctx : MbedtlsCmacContext) :
    CmacCall → Int × MbedtlsCmacContext × Option (Block 16)
  | .update input => ((mbedtlsCipherCmacUpdate e ctx input).1,
      (mbedtlsCipherCmacUpdate e ctx input).2, none)
  | .finish => mbedtlsCipherCmacFinish e ctx
  | .reset => ((mbedtlsCipherCmacReset ctx).1, (mbedtlsCipherCmacReset ctx).2, none)

def cmacRun (ctx : MbedtlsCmacContext) : List CmacCall → List (Int × Option (Block 16))
  | [] => []
  | c :: cs =>
    let r := cmacCall e ctx c
    (r.1, r.2.2) :: cmacRun r.2.1 cs

/-- Every call succeeds, and a finish gives the code of the message since the last finish or reset.
-/
def expected (f : Block 16 → Block 16) (m : ByteString) :
    List CmacCall → List (Int × Option (Block 16))
  | [] => []
  | .update x :: cs => (0, none) :: expected f (m ++ x) cs
  | .finish :: cs => (0, some (Cmac.cmac f m)) :: expected f [] cs
  | .reset :: cs => (0, none) :: expected f [] cs

/-! ## The doubling on words -/

theorem getUint32Be_toNat (input : Block 16) (i : Nat) :
    (getUint32Be input i).toNat = ofBE (slice input.toList i 4) := by
  have hlt := ofBE_lt (slice input.toList i 4)
  have hlen : (slice input.toList i 4).length ≤ 4 := by
    rw [length_slice]
    exact Nat.min_le_left _ _
  rw [getUint32Be, UInt32.toNat_ofNat_of_lt']
  exact hlt.trans_le (Nat.pow_le_pow_right (by decide) hlen)

/-- The bytes written from byte `i` on and the overflow are the double of the input's. -/
structure Doubled (input : Block 16) (i : Nat) (acc : ByteString × UInt32) : Prop where
  length : acc.1.length + i = 16
  overflow : acc.2.toNat ≤ 1
  value : ofBE acc.1 + 256 ^ acc.1.length * acc.2.toNat = 2 * ofBE (input.toList.drop i)

theorem Doubled.pass {input : Block 16} {i : Nat} {acc : ByteString × UInt32}
    (h : Doubled input (i + 4) acc) : Doubled input i (multiplyPass input acc i) := by
  obtain ⟨w, hw⟩ : ∃ w, w = getUint32Be input i := ⟨_, rfl⟩
  have hlt : w.toNat < 4294967296 := w.toNat_lt
  have hover := h.overflow
  have hsplit : input.toList.drop i = slice input.toList i 4 ++ input.toList.drop (i + 4) := by
    rw [slice, ← List.drop_drop, List.take_append_drop]
  have hrest : (input.toList.drop (i + 4)).length = acc.1.length := by
    have hlen := h.length
    rw [List.length_drop, Block.length_toList]
    omega
  have hshift : (w <<< 1).toNat = 2 * w.toNat % 4294967296 := by
    rw [UInt32.toNat_shiftLeft, Nat.shiftLeft_eq, Nat.mul_comm]
    rfl
  have hor : ((w <<< 1) ||| acc.2).toNat = 2 * w.toNat % 4294967296 + acc.2.toNat := by
    rw [UInt32.toNat_or, hshift,
      show 2 * w.toNat % 4294967296 = 2 * (w.toNat % 2147483648) by omega,
      show acc.2.toNat = acc.2.toNat % 2 ^ 1 by omega, ← Nat.pow_one 2,
      Nat.two_pow_add_eq_or_of_lt (Nat.mod_lt _ (by decide))]
  have hnew : (w >>> 31).toNat = w.toNat / 2147483648 := by
    rw [UInt32.toNat_shiftRight, Nat.shiftRight_eq_div_pow]
    rfl
  have hword : ofBE (toBE 4 ((w <<< 1) ||| acc.2).toNat) = ((w <<< 1) ||| acc.2).toNat := by
    exact (ofBE_toBE _ _).trans (Nat.mod_eq_of_lt (UInt32.toNat_lt _))
  unfold multiplyPass
  simp only [← hw]
  refine ⟨?_, ?_, ?_⟩
  · have hlen := h.length
    simp only [List.length_append, length_toBE]
    omega
  · simp only [hnew]
    omega
  have hvalue := h.value
  have hwval := getUint32Be_toNat input i
  simp only [ofBE_append, List.length_append, length_toBE, hword, hsplit, hrest, hnew]
  rw [← hwval, ← hw, hor, Nat.pow_add]
  generalize 256 ^ acc.1.length = p at *
  have hdiv : 2 * w.toNat % 4294967296 + 4294967296 * (w.toNat / 2147483648) = 2 * w.toNat := by
    omega
  calc (2 * w.toNat % 4294967296 + acc.2.toNat) * p + ofBE acc.1 +
        256 ^ 4 * p * (w.toNat / 2147483648)
      = (2 * w.toNat % 4294967296 + 4294967296 * (w.toNat / 2147483648)) * p +
        (ofBE acc.1 + p * acc.2.toNat) := by ring
    _ = 2 * (w.toNat * p + ofBE (input.toList.drop (i + 4))) := by rw [hdiv, hvalue]; ring

theorem doubled_loop (input : Block 16) :
    Doubled input 0 ([12, 8, 4, 0].foldl (multiplyPass input) ([], 0)) := by
  have hnil : input.toList.drop 16 = [] := List.drop_of_length_le (Block.length_toList input).le
  have hstart : Doubled input 16 ([], 0) :=
    { length := rfl, overflow := by decide, value := by rw [hnil]; rfl }
  exact hstart.pass.pass.pass.pass

theorem xorAt_last {x : ByteString} (hx : x.length = 15) (b c : UInt8) :
    (Block.ofList (x ++ [b]) : Block 16).xorAt 15 [c] = Block.ofList (x ++ [b ^^^ c]) := by
  funext i
  unfold Block.xorAt Block.ofList
  by_cases hlast : (i : Nat) = 15
  · rw [hlast, if_pos ⟨le_rfl, by simp⟩, List.getD_append_right _ _ _ _ hx.le,
      List.getD_append_right _ _ _ _ hx.le, hx]
    rfl
  · rw [if_neg (by rw [List.length_singleton]; omega), List.getD_append _ _ _ _ (by omega),
      List.getD_append _ _ _ _ (by omega)]

theorem ofBits_xor_byte (v : BitVec 128) (c : UInt8) :
    Cmac.ofBits (v ^^^ BitVec.ofNat 128 c.toNat) = (Cmac.ofBits v).xorAt 15 [c] := by
  have hc : c.toNat < 2 ^ 8 := c.toNat_lt
  have hsplit : ∀ n : Nat, toBE 16 n = toBE 15 (n / 2 ^ 8) ++ [UInt8.ofNat n] := fun n =>
    toBE_add 15 1 n
  have hxor : (v ^^^ BitVec.ofNat 128 c.toNat).toNat = v.toNat ^^^ c.toNat := by
    rw [BitVec.toNat_xor, BitVec.toNat_ofNat, Nat.mod_eq_of_lt (by omega)]
  have hbyte : UInt8.ofNat (v.toNat ^^^ c.toNat) = UInt8.ofNat v.toNat ^^^ c := by
    rw [UInt8.ofNat_xor, UInt8.ofNat_toNat]
  unfold Cmac.ofBits
  rw [hsplit, hsplit, hxor, Nat.xor_div_two_pow, Nat.div_eq_of_lt hc, Nat.xor_zero, hbyte,
    xorAt_last (length_toBE 15 _)]

theorem cmacMultiplyByU_eq (input : Block 16) : cmacMultiplyByU input = Cmac.double input := by
  obtain ⟨acc, hacc⟩ : ∃ acc, acc = [12, 8, 4, 0].foldl (multiplyPass input) ([], 0) := ⟨_, rfl⟩
  have hdoubled := doubled_loop input
  rw [← hacc] at hdoubled
  obtain ⟨hlen, hover, hvalue⟩ := hdoubled
  rw [Nat.add_zero] at hlen
  rw [hlen, List.drop_zero] at hvalue
  have hlt : ofBE acc.1 < 256 ^ 16 := hlen ▸ ofBE_lt acc.1
  have hin : ofBE input.toList < 2 ^ 128 := by
    have hbound := ofBE_lt input.toList
    rwa [Block.length_toList] at hbound
  have hbits : (Cmac.bits input).toNat = ofBE input.toList :=
    BitVec.toNat_ofNat _ _ ▸ Nat.mod_eq_of_lt hin
  have hshift : Block.ofList acc.1 = Cmac.ofBits (Cmac.bits input <<< 1) := by
    have hdouble : (Cmac.bits input <<< 1).toNat = ofBE acc.1 := by
      rw [BitVec.toNat_shiftLeft, hbits, Nat.shiftLeft_eq]
      omega
    rw [Cmac.ofBits, hdouble, ← hlen, toBE_ofBE]
  -- the top bit is that of the first byte
  have htop : (Cmac.bits input).msb = decide ((input 0 >>> 7).toUInt64 ≠ 0) := by
    have hfirst : input.toList = input 0 :: input.toList.tail := by
      simp [Block.toList, List.ofFn_succ]
    have hrest := ofBE_lt input.toList.tail
    have hhigh : (input 0 >>> 7).toUInt64 = 0 ↔ (input 0).toNat / 2 ^ 7 = 0 := by
      rw [← UInt64.toNat_inj, UInt8.toNat_toUInt64, UInt8.toNat_shiftRight,
        Nat.shiftRight_eq_div_pow]
      rfl
    rw [BitVec.msb_eq_decide, hbits, Bool.eq_iff_iff, decide_eq_true_iff, decide_eq_true_iff,
      ne_eq, hhigh, hfirst, ofBE_cons]
    rw [List.length_tail, Block.length_toList] at hrest ⊢
    omega
  unfold cmacMultiplyByU Cmac.double
  simp only [← hacc, hshift, mbedtlsCtBool_eq, mbedtlsCtUintIfElse0_mask, ← htop]
  cases (Cmac.bits input).msb
  · have hzero := ofBits_xor_byte (Cmac.bits input <<< 1) 0
    exact hzero.symm.trans (congrArg Cmac.ofBits (BitVec.xor_zero))
  · exact (ofBits_xor_byte (Cmac.bits input <<< 1) 0x87).symm

/-! ## One call -/

/-- The context has chained the blocks `whole` and holds the bytes `last` back. -/
structure Holding (f : Block 16 → Block 16) (whole last : ByteString)
    (ctx : MbedtlsCmacContext) : Prop where
  blocks : 16 ∣ whole.length
  last_le : last.length ≤ 16
  last_ne : last = [] → whole = []
  state : ctx.state = chain f Block.zero (blocksOf 16 whole)
  held : ctx.unprocessedBlock.toList.take last.length = last
  len : ctx.unprocessedLen = last.length

variable {f : Block 16 → Block 16} {whole last x : ByteString} {ctx : MbedtlsCmacContext}

theorem take_store {b : Block 16} {off : Nat} (h : off + x.length ≤ 16) :
    (b.store off x).toList.take (off + x.length) = b.toList.take off ++ x := by
  apply List.ext_getElem
  · simp only [List.length_take, List.length_append, Block.length_toList]
    omega
  intro i hi hi'
  simp only [List.length_take, Block.length_toList] at hi
  rw [List.getElem_take]
  simp only [Block.toList, List.getElem_ofFn, Block.store]
  by_cases hoff : off ≤ i
  · rw [if_pos ⟨hoff, by omega⟩, List.getElem_append_right (by simp; omega),
      List.getD_eq_getElem _ _ (by omega)]
    congr 1
    simp
    omega
  · rw [if_neg (by omega), List.getElem_append_left (by simp; omega), List.getElem_take,
      List.getElem_ofFn]

theorem Holding.fill (h : Holding f whole last ctx) (hx : last.length + x.length = 16) :
    f ((ctx.unprocessedBlock.store ctx.unprocessedLen x).xor ctx.state) =
      chain f Block.zero (blocksOf 16 (whole ++ (last ++ x))) := by
  have hlen : (last ++ x).length = 16 := by rw [List.length_append, hx]
  have hfull : ctx.unprocessedBlock.store ctx.unprocessedLen x = Block.ofList (last ++ x) := by
    have htake := @take_store x ctx.unprocessedBlock last.length hx.le
    rw [h.held, hx, List.take_of_length_le (by simp)] at htake
    rw [h.len, ← htake, Block.ofList_toList]
  rw [hfull, h.state, Cmac.chain_snoc h.blocks hlen]

theorem cmacUpdateLoop_eq {n : Nat} (hwhole : 16 ∣ whole.length) (h : n * 16 ≤ x.length) :
    cmacUpdateLoop (fun b => .ok (f b)) n (chain f Block.zero (blocksOf 16 whole)) x =
      .ok (chain f Block.zero (blocksOf 16 (whole ++ x.take (n * 16))), x.drop (n * 16)) := by
  induction n generalizing whole x with
  | zero => simp [cmacUpdateLoop]
  | succ n ih =>
    have hblock : (x.take 16).length = 16 := by
      rw [List.length_take]
      omega
    have hnext : 16 ∣ (whole ++ x.take 16).length := by
      rw [List.length_append, hblock]
      exact Nat.dvd_add hwhole (Nat.dvd_refl 16)
    have hrest : n * 16 ≤ (x.drop 16).length := by
      rw [List.length_drop]
      omega
    have hsplit : (n + 1) * 16 = 16 + n * 16 := by omega
    rw [cmacUpdateLoop]
    simp only [← Cmac.chain_snoc hwhole hblock]
    rw [ih hnext hrest, hsplit, List.take_add, List.append_assoc, List.drop_drop]

theorem cmacUpdateBlocks_holding (hwhole : 16 ∣ whole.length) (hx : x ≠ [])
    (hstate : ctx.state = chain f Block.zero (blocksOf 16 whole)) (hlen : ctx.unprocessedLen = 0) :
    ∃ ctx' whole' last', cmacUpdateBlocks (fun b => .ok (f b)) ctx x = (0, ctx') ∧
      whole' ++ last' = whole ++ x ∧ Holding f whole' last' ctx' := by
  have hpos := List.length_pos_iff.mpr hx
  obtain ⟨n, hn⟩ : ∃ n, n = (x.length + 16 - 1) / 16 - 1 := ⟨_, rfl⟩
  have hloop := @cmacUpdateLoop_eq f whole x n hwhole (by omega)
  have hlast : 0 < (x.drop (n * 16)).length ∧ (x.drop (n * 16)).length ≤ 16 := by
    rw [List.length_drop]
    omega
  have hmore : 16 ∣ (whole ++ x.take (n * 16)).length := by
    rw [List.length_append, List.length_take, Nat.min_eq_left (by omega)]
    exact Nat.dvd_add hwhole (Nat.dvd_mul_left 16 n)
  have hstore := @take_store (x.drop (n * 16)) ctx.unprocessedBlock 0 (by omega)
  rw [Nat.zero_add, List.take_zero, List.nil_append] at hstore
  unfold cmacUpdateBlocks
  simp only [← hn, hstate, hloop, hlen]
  rw [if_pos hlast.1]
  refine ⟨_, whole ++ x.take (n * 16), x.drop (n * 16), rfl, ?_, ?_⟩
  · rw [List.append_assoc, List.take_append_drop]
  exact
    { blocks := hmore
      last_le := hlast.2
      last_ne := fun hnil => absurd hlast.1 (by rw [hnil]; decide)
      state := rfl
      held := hstore
      len := Nat.zero_add _ }

theorem mbedtlsCipherCmacUpdate_holding (h : Holding f whole last ctx) (x : ByteString) :
    ∃ ctx' whole' last', mbedtlsCipherCmacUpdate (fun b => .ok (f b)) ctx x = (0, ctx') ∧
      whole' ++ last' = whole ++ last ++ x ∧ Holding f whole' last' ctx' := by
  have hle := h.last_le
  unfold mbedtlsCipherCmacUpdate cmacUpdateHeld
  by_cases hfill : ctx.unprocessedLen > 0 ∧ x.length > 16 - ctx.unprocessedLen
  · -- the held block is filled, and something is left for the next
    simp only [if_pos hfill]
    rw [h.len] at hfill
    have hroom : last.length + (x.take (16 - last.length)).length = 16 := by
      rw [List.length_take]
      omega
    have hrest : x.drop (16 - last.length) ≠ [] := by
      rw [ne_eq, List.drop_eq_nil_iff]
      omega
    have hwhole : 16 ∣ (whole ++ (last ++ x.take (16 - last.length))).length := by
      rw [List.length_append, List.length_append, hroom]
      exact Nat.dvd_add h.blocks (Nat.dvd_refl 16)
    have hstate := h.fill hroom
    rw [h.len] at hstate ⊢
    simp only [hstate]
    obtain ⟨ctx', whole', last', hret, hmessage, hholds⟩ := @cmacUpdateBlocks_holding f _ _
      ⟨_, ctx.unprocessedBlock.store last.length (x.take (16 - last.length)), 0⟩
      hwhole hrest rfl rfl
    refine ⟨ctx', whole', last', hret, hmessage.trans ?_, hholds⟩
    simp only [List.append_assoc, List.take_append_drop]
  · simp only [if_neg hfill]
    rw [h.len] at hfill
    by_cases hempty : last = []
    · -- nothing is held, so nothing has been chained
      by_cases hx : x = []
      · refine ⟨ctx, whole, last, ?_, by rw [hx, List.append_nil], h⟩
        subst hx
        rfl
      · obtain ⟨ctx', whole', last', hret, hmessage, hholds⟩ :=
          cmacUpdateBlocks_holding h.blocks hx h.state (by rw [h.len, hempty]; rfl)
        exact ⟨ctx', whole', last', hret, by rw [hmessage, hempty, List.append_nil], hholds⟩
    · -- the held block has room for the input
      have hpos := List.length_pos_iff.mpr hempty
      have hcount : (x.length + 16 - 1) / 16 - 1 = 0 := by omega
      have hstore := @take_store x ctx.unprocessedBlock last.length (by omega)
      unfold cmacUpdateBlocks
      simp only [hcount, cmacUpdateLoop]
      by_cases hx : x.length > 0
      · rw [if_pos hx]
        refine ⟨_, whole, last ++ x, rfl, (List.append_assoc _ _ _).symm, ?_⟩
        exact
          { blocks := h.blocks
            last_le := by rw [List.length_append]; omega
            last_ne := fun hnil => absurd (List.append_eq_nil_iff.mp hnil).1 hempty
            state := h.state
            held := by rw [h.len, List.length_append, hstore, h.held]
            len := by rw [h.len, List.length_append] }
      · rw [if_neg hx]
        have hxnil : x = [] := List.length_eq_zero_iff.mp (by omega)
        exact ⟨ctx, whole, last, rfl, by rw [hxnil, List.append_nil], h⟩

theorem cmacPad_eq {b : Block 16} (hheld : b.toList.take last.length = last) :
    cmacPad b last.length = Cmac.padding last := by
  funext j
  unfold cmacPad Cmac.padding Block.ofList
  by_cases hlt : (j : Nat) < last.length
  · have hbyte : b.toList[(j : Nat)]? = last[(j : Nat)]? := by
      rw [← List.getElem?_take_of_lt hlt, hheld]
    rw [if_pos hlt, List.getD_append _ _ _ _ hlt, List.getD_eq_getElem?_getD, ← hbyte,
      List.getElem?_eq_getElem (by simp), Option.getD_some]
    exact (List.getElem_ofFn ..).symm
  · rw [if_neg hlt, List.getD_append_right _ _ _ _ (by omega)]
    by_cases heq : (j : Nat) = last.length
    · rw [if_pos heq, heq, Nat.sub_self]
      rfl
    · rw [if_neg heq, List.getD_eq_default _ _ (by rw [List.length_singleton]; omega)]

theorem mbedtlsCipherCmacFinish_holding (h : Holding f whole last ctx) :
    mbedtlsCipherCmacFinish (fun b => .ok (f b)) ctx =
      (0, mbedtlsCipherCmacStarts, some (Cmac.cmac f (whole ++ last))) := by
  have hle := h.last_le
  rw [Cmac.cmac_append f h.blocks hle h.last_ne]
  unfold mbedtlsCipherCmacFinish Cmac.lastBlock
  simp only [cmacGenerateSubkeys, cmacMultiplyByU_eq, h.state, h.len]
  by_cases hfull : last.length = 16
  · have hblock : ctx.unprocessedBlock = Block.ofList last := by
      have hheld := h.held
      rw [hfull, List.take_of_length_le (by simp)] at hheld
      rw [← hheld, Block.ofList_toList]
    rw [if_neg (by omega), if_pos hfull, hblock]
    rfl
  · rw [if_pos (by omega), if_neg hfull, cmacPad_eq h.held]
    rfl

/-! ## Runs -/

theorem holding_starts : Holding f [] [] mbedtlsCipherCmacStarts :=
  { blocks := Nat.dvd_zero 16
    last_le := by decide
    last_ne := fun _ => rfl
    state := by rw [blocksOf_nil (by decide)]; rfl
    held := rfl
    len := rfl }

theorem cmacRun_expected (h : Holding f whole last ctx) (calls : List CmacCall) :
    cmacRun (fun b => .ok (f b)) ctx calls = expected f (whole ++ last) calls := by
  induction calls generalizing whole last ctx with
  | nil => rfl
  | cons c calls ih =>
    cases c with
    | update x =>
      obtain ⟨ctx', whole', last', hret, hmessage, hholds⟩ := mbedtlsCipherCmacUpdate_holding h x
      simp only [cmacRun, cmacCall, expected, hret, ih hholds, hmessage]
    | finish =>
      simp only [cmacRun, cmacCall, expected, mbedtlsCipherCmacFinish_holding h]
      rw [ih holding_starts]
      rfl
    | reset =>
      exact congrArg _ (ih holding_starts)

theorem expected_fresh (m : ByteString) (before after : List CmacCall) {c : CmacCall}
    (hc : ∀ x, c ≠ .update x) :
    expected f m (before ++ c :: after) = expected f m (before ++ [c]) ++ expected f [] after := by
  induction before generalizing m with
  | nil =>
    cases c with
    | update x => exact absurd rfl (hc x)
    | finish => rfl
    | reset => rfl
  | cons b before ih => cases b <;> simp only [List.cons_append, expected, ih]

theorem expected_chunks (m : ByteString) (chunks : List ByteString) :
    expected f m (chunks.map .update ++ [.finish]) =
      List.replicate chunks.length (0, none) ++
        [(0, some (Cmac.cmac f (m ++ chunks.flatten)))] := by
  induction chunks generalizing m with
  | nil => simp [expected]
  | cons x chunks ih =>
    simp only [List.map_cons, List.cons_append, expected, ih, List.length_cons,
      List.replicate_succ, List.flatten_cons, List.append_assoc]

/-- For every block cipher, key, message and split of it, a finish returns the CMAC of the message,
after the start as after any calls that end in a finish or a reset. -/
theorem cipher_cmac_every_chunking (cipher : ByteString → Block 16 → Block 16) (key : ByteString)
    (chunks : List ByteString) :
    (cmacRun (fun b => .ok (cipher key b)) mbedtlsCipherCmacStarts
        (chunks.map .update ++ [.finish])).getLast? =
      some (0, some (Cmac.cmac (cipher key) chunks.flatten)) ∧
    ∀ (before : List CmacCall) (c : CmacCall), (∀ x, c ≠ .update x) →
      cmacRun (fun b => .ok (cipher key b)) mbedtlsCipherCmacStarts
          (before ++ c :: (chunks.map .update ++ [.finish])) =
        cmacRun (fun b => .ok (cipher key b)) mbedtlsCipherCmacStarts (before ++ [c]) ++
          List.replicate chunks.length (0, none) ++
          [(0, some (Cmac.cmac (cipher key) chunks.flatten))] := by
  constructor
  · rw [cmacRun_expected holding_starts, expected_chunks, List.getLast?_append]
    rfl
  · intro before c hc
    rw [cmacRun_expected holding_starts, cmacRun_expected holding_starts, expected_fresh _ _ _ hc,
      expected_chunks, List.append_assoc]
    rfl

/-- A message of one byte after a reset, under the cipher that leaves blocks as they are. -/
theorem cipher_cmac_every_chunking_reset :
    cmacRun (fun b => .ok b) mbedtlsCipherCmacStarts
        ([.update [1, 2]] ++ .reset :: ([[7]].map .update ++ [.finish])) =
      cmacRun (fun b => .ok b) mbedtlsCipherCmacStarts ([.update [1, 2]] ++ [.reset]) ++
        [(0, none)] ++ [(0, some (Cmac.cmac (fun b => b) [7]))] :=
  (cipher_cmac_every_chunking (fun _ b => b) [] [[7]]).2 [.update [1, 2]] .reset
    (fun x h => by cases h)

end TfPsaCrypto.CipherCmac
