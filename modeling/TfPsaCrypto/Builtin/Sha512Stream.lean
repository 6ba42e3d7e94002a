import TfPsaCrypto.Builtin.Sha512Compress

/-!
# SHA-512 of a message in pieces

The context holds what was absorbed of a message, and the last step pads the rest.
-/

namespace TfPsaCrypto.Sha512

open Bytes

/-! ## Updates -/

variable {buffer x input message : ByteString} {H : Registers} {ctx : MbedtlsSha512Context}

theorem writeBuffer_of_le {data : ByteString} {offset : Nat} (h : offset + data.length ≤ 128) :
    writeBuffer buffer offset data = .ok (storeAt buffer offset data) :=
  if_pos h

def tail (message : ByteString) : ByteString := message.drop (128 * (message.length / 128))

/-- What a context holds of a message that is hashed from `H`. -/
structure Absorbed (H : Registers) (ctx : MbedtlsSha512Context) (message : ByteString) : Prop where
  total : ctx.total1.toNat * 2 ^ 64 + ctx.total0.toNat = message.length
  state : ctx.state = BlockHash.hash 128 Sha2.compress H message
  length_buffer : ctx.buffer.length = 128
  buffer : ctx.buffer.take (tail message).length = tail message

theorem updateLoop_eq (smaller : Bool) (state : Registers) (input : ByteString) :
    updateLoop smaller state input =
      .ok (BlockHash.hash 128 Sha2.compress state input, tail input) := by
  have hsize : sha512BlockSize = 128 := rfl
  unfold tail
  rw [updateLoop]
  split
  · next hle =>
    rw [mbedtlsInternalSha512ProcessManyC_eq]
    rw [if_neg (by omega), updateLoop, if_neg (by rw [List.length_drop]; omega)]
  · next hlt =>
    rw [BlockHash.hash_of_lt (by omega), Nat.div_eq_of_lt (by omega), Nat.mul_zero, List.drop_zero]

theorem length_tail (message : ByteString) : (tail message).length = message.length % 128 := by
  unfold tail
  rw [List.length_drop]
  omega

theorem tail_append {m : Nat} (h : x.length = m * 128) (y : ByteString) :
    tail (x ++ y) = tail y := by
  unfold tail
  have hdrop : 128 * ((x ++ y).length / 128) = x.length + 128 * (y.length / 128) := by
    rw [List.length_append]
    omega
  rw [hdrop, List.drop_append, List.drop_eq_nil_of_le (by omega), List.nil_append,
    Nat.add_sub_cancel_left]

theorem updateBlocks_eq (smaller : Bool) (ctx : MbedtlsSha512Context) {left : Nat}
    (h : left + (tail input).length ≤ 128) :
    ∃ buffer, updateBlocks smaller ctx left input =
        .ok { ctx with
          state := BlockHash.hash 128 Sha2.compress ctx.state input, buffer := buffer } ∧
      (ctx.buffer.length = 128 → buffer.length = 128 ∧
        buffer.take (left + (tail input).length) = ctx.buffer.take left ++ tail input) := by
  unfold updateBlocks
  rw [updateLoop_eq]
  simp only
  split
  · rw [writeBuffer_of_le h]
    refine ⟨_, rfl, fun hlength => ⟨?_, ?_⟩⟩
    · rw [length_storeAt (by omega), hlength]
    · unfold storeAt
      rw [List.take_left' (by rw [List.length_append, List.length_take]; omega)]
  · next hempty =>
    have hnil : tail input = [] := List.length_eq_zero_iff.mp (by omega)
    refine ⟨_, rfl, fun hlength => ⟨hlength, ?_⟩⟩
    rw [hnil, List.append_nil, List.length_nil, Nat.add_zero]

theorem total_add {total0 total1 : Uint64} {n k : Nat}
    (h : total1.toNat * 2 ^ 64 + total0.toNat = n) (hk : k < 2 ^ 64) (hn : n + k < 2 ^ 128) :
    (if total0 + BitVec.ofNat 64 k < BitVec.ofNat 64 k then total1 + 1 else total1).toNat *
        2 ^ 64 + (total0 + BitVec.ofNat 64 k).toNat = n + k := by
  have hword : (BitVec.ofNat 64 k).toNat = k := by
    rw [BitVec.toNat_ofNat, Nat.mod_eq_of_lt hk]
  have hsum : (total0 + BitVec.ofNat 64 k).toNat = (total0.toNat + k) % 2 ^ 64 := by
    rw [BitVec.toNat_add, hword]
  split
  · next hcarry =>
    rw [BitVec.lt_def, hsum, hword] at hcarry
    have hone : (1 : Uint64).toNat = 1 := by decide
    rw [BitVec.toNat_add, hsum, hone]
    have hover : (total0.toNat + k) % 2 ^ 64 + 2 ^ 64 = total0.toNat + k := by omega
    have hlt : total1.toNat + 1 < 2 ^ 64 := by omega
    rw [Nat.mod_eq_of_lt hlt, Nat.add_mul, Nat.one_mul, Nat.add_assoc, Nat.add_comm (2 ^ 64),
      hover, ← Nat.add_assoc, h]
  · next hcarry =>
    rw [BitVec.lt_def, hsum, hword] at hcarry
    rw [hsum]
    omega

theorem tail_of_lt (h : message.length < 128) : tail message = message := by
  unfold tail
  rw [Nat.div_eq_of_lt h, Nat.mul_zero, List.drop_zero]

theorem Absorbed.left_eq (h : Absorbed H ctx message) :
    (ctx.total0 &&& 0x7F).toNat = (tail message).length := by
  have hmask : (0x7F : Uint64).toNat = 2 ^ 7 - 1 := by decide
  have htotal := h.total
  rw [length_tail, ← htotal, BitVec.toNat_and, hmask, Nat.and_two_pow_sub_one_eq_mod]
  omega

theorem updateBlocks_absorbed (smaller : Bool) {m : Nat} (hx : x.length = m * 128)
    (htotal : ctx.total1.toNat * 2 ^ 64 + ctx.total0.toNat = (x ++ input).length)
    (hstate : ctx.state = BlockHash.hash 128 Sha2.compress H x)
    (hlength : ctx.buffer.length = 128) :
    ∃ ctx', updateBlocks smaller ctx 0 input = .ok ctx' ∧ Absorbed H ctx' (x ++ input) ∧
      ctx'.is384 = ctx.is384 := by
  have hsmall := length_tail input
  obtain ⟨buffer, hupdate, hbuffer⟩ := updateBlocks_eq smaller ctx
    (show 0 + (tail input).length ≤ 128 by omega)
  obtain ⟨hlength', htake⟩ := hbuffer hlength
  refine ⟨_, hupdate, ⟨htotal, ?_, hlength', ?_⟩, rfl⟩
  · rw [BlockHash.hash_append (by decide) hx, ← hstate]
  · rw [tail_append hx]
    rwa [Nat.zero_add, List.take_zero, List.nil_append] at htake

theorem mbedtlsSha512Update_absorbed (smaller : Bool) (h : Absorbed H ctx message)
    (hinput : input.length < 2 ^ 64) (hlen : message.length + input.length < 2 ^ 128) :
    ∃ ctx', mbedtlsSha512Update smaller ctx input = .ok ctx' ∧
      Absorbed H ctx' (message ++ input) ∧ ctx'.is384 = ctx.is384 := by
  have hsize : sha512BlockSize = 128 := rfl
  have htotal := total_add h.total hinput hlen
  rw [← List.length_append] at htotal
  have hlength := h.length_buffer
  have htail := length_tail message
  -- the message is whole blocks, and the tail that the buffer holds
  obtain ⟨whole, hwhole, hmessage⟩ : ∃ whole : ByteString,
      whole.length = message.length / 128 * 128 ∧ message = whole ++ tail message := by
    refine ⟨message.take (128 * (message.length / 128)), ?_, (List.take_append_drop _ _).symm⟩
    rw [List.length_take]
    omega
  have hstate : ctx.state = BlockHash.hash 128 Sha2.compress H whole := by
    rw [h.state]
    conv_lhs => rw [hmessage]
    rw [BlockHash.hash_append (by decide) hwhole, BlockHash.hash_of_lt (by omega)]
  unfold mbedtlsSha512Update
  split
  · next hzero =>
    obtain rfl : input = [] := List.length_eq_zero_iff.mp hzero
    rw [List.append_nil]
    exact ⟨ctx, rfl, h, rfl⟩
  simp only [h.left_eq]
  split
  · next hfill =>
    obtain ⟨hleft, hfill⟩ := hfill
    have hblock : (tail message ++ input.take (sha512BlockSize - (tail message).length)).length =
        128 := by
      rw [List.length_append, List.length_take]
      omega
    have hstore : storeAt ctx.buffer (tail message).length
        (input.take (sha512BlockSize - (tail message).length)) =
        tail message ++ input.take (sha512BlockSize - (tail message).length) := by
      unfold storeAt
      rw [h.buffer, List.drop_eq_nil_of_le (by rw [List.length_take]; omega), List.append_nil]
    rw [writeBuffer_of_le (by rw [List.length_take]; omega), hstore]
    have happend : message ++ input =
        (whole ++ (tail message ++ input.take (sha512BlockSize - (tail message).length))) ++
          input.drop (sha512BlockSize - (tail message).length) := by
      rw [List.append_assoc, List.append_assoc, List.take_append_drop, ← List.append_assoc,
        ← hmessage]
    have hblocks : (whole ++
        (tail message ++ input.take (sha512BlockSize - (tail message).length))).length =
        (message.length / 128 + 1) * 128 := by
      rw [List.length_append, hblock, hwhole]
      omega
    rw [happend] at htotal ⊢
    refine updateBlocks_absorbed smaller hblocks htotal ?_ hblock
    rw [BlockHash.hash_append (by decide) hwhole, BlockHash.hash_block (by decide) hblock,
      ← hstate, mbedtlsInternalSha512ProcessC_eq]
  · next hfill =>
    rcases Nat.eq_zero_or_pos (tail message).length with hzero | hpos
    · have hnil : tail message = [] := List.length_eq_zero_iff.mp hzero
      rw [hnil, List.append_nil] at hmessage
      rw [hzero]
      rw [← hmessage] at hwhole hstate
      exact updateBlocks_absorbed smaller hwhole htotal hstate hlength
    · have hshort : (tail message ++ input).length < 128 := by
        rw [List.length_append]
        omega
      have hinputTail : tail input = input := tail_of_lt (by omega)
      obtain ⟨buffer, hupdate, hbuffer⟩ := updateBlocks_eq smaller
        { ctx with
          total0 := ctx.total0 + BitVec.ofNat 64 input.length
          total1 := if ctx.total0 + BitVec.ofNat 64 input.length < BitVec.ofNat 64 input.length
            then ctx.total1 + 1 else ctx.total1 }
        (show (tail message).length + (tail input).length ≤ 128 by rw [hinputTail]; omega)
      obtain ⟨hlength', htake⟩ := hbuffer hlength
      have happend : tail (message ++ input) = tail message ++ input := by
        conv_lhs => rw [hmessage, List.append_assoc]
        rw [tail_append hwhole, tail_of_lt (by rw [List.length_append]; omega)]
      refine ⟨_, hupdate, ⟨htotal, ?_, hlength', ?_⟩, rfl⟩
      · show BlockHash.hash 128 Sha2.compress ctx.state input = _
        conv_rhs => rw [hmessage, List.append_assoc]
        rw [BlockHash.hash_of_lt (by omega), BlockHash.hash_append (by decide) hwhole,
          BlockHash.hash_of_lt (by rw [List.length_append]; omega), hstate]
      · rw [happend, List.length_append]
        rw [hinputTail, h.buffer] at htake
        exact htake

theorem updates_absorbed (smaller : Bool) {inputs : List ByteString} (h : Absorbed H ctx message)
    (hinputs : ∀ input ∈ inputs, input.length < 2 ^ 64)
    (hlen : message.length + inputs.flatten.length < 2 ^ 128) :
    ∃ ctx', inputs.foldlM (mbedtlsSha512Update smaller) ctx = .ok ctx' ∧
      Absorbed H ctx' (message ++ inputs.flatten) ∧ ctx'.is384 = ctx.is384 := by
  induction inputs generalizing ctx message with
  | nil =>
    rw [List.flatten_nil, List.append_nil]
    exact ⟨ctx, rfl, h, rfl⟩
  | cons input inputs ih =>
    rw [List.flatten_cons, List.length_append] at hlen
    obtain ⟨ctx₁, hupdate, habsorbed, his384⟩ := mbedtlsSha512Update_absorbed smaller h
      (hinputs input List.mem_cons_self) (by omega)
    obtain ⟨ctx₂, hupdates, habsorbed', his384'⟩ := ih habsorbed
      (fun input' hmem => hinputs input' (List.mem_cons_of_mem input hmem))
      (by rw [List.length_append]; omega)
    refine ⟨ctx₂, ?_, ?_, his384'.trans his384⟩
    · rw [List.foldlM_cons, hupdate]
      exact hupdates
    · rwa [List.flatten_cons, ← List.append_assoc]

/-! ## The last blocks -/

def Holds (buffer x : ByteString) : Prop := buffer.length = 128 ∧ buffer.take x.length = x

theorem Holds.write {data : ByteString} (h : Holds buffer x) (hle : x.length + data.length ≤ 128) :
    ∃ buffer', writeBuffer buffer x.length data = .ok buffer' ∧ Holds buffer' (x ++ data) := by
  obtain ⟨hlength, htake⟩ := h
  refine ⟨_, writeBuffer_of_le hle, ?_, ?_⟩
  · rw [length_storeAt (by omega), hlength]
  · unfold storeAt
    rw [htake, List.take_left]

theorem Holds.eq (h : Holds buffer x) (hx : x.length = 128) : buffer = x := by
  obtain ⟨hlength, htake⟩ := h
  rwa [hx, ← hlength, List.take_length] at htake

def padded (n : Nat) : ByteString := 0x80 :: List.replicate (BlockHash.zeroCount 128 16 n) 0

theorem zeroCount_eq (n : Nat) : BlockHash.zeroCount 128 16 n =
    if n % 128 + 1 ≤ 112 then 112 - (n % 128 + 1) else 128 - (n % 128 + 1) + 112 := by
  unfold BlockHash.zeroCount
  split <;> omega

theorem finishPadding_spec (smaller : Bool) (h : Holds buffer (tail message)) :
    ∃ state buffer' x, finishPadding smaller H buffer (tail message).length =
        .ok (state, buffer') ∧ x.length = 112 ∧ Holds buffer' x ∧
      ∀ field : ByteString, field.length = 16 →
        BlockHash.hash 128 Sha2.compress H (tail message ++ padded message.length ++ field) =
          Sha2.compress state (x ++ field) := by
  have hsize : sha512BlockSize = 128 := rfl
  have htail := length_tail message
  obtain ⟨b₁, hwrite₁, hb₁⟩ := @Holds.write _ _ [0x80] h (by rw [List.length_singleton]; omega)
  have hused : (tail message ++ [0x80]).length = (tail message).length + 1 := List.length_append
  unfold finishPadding
  rw [hwrite₁]
  simp only [bind, Except.bind, pure, Except.pure]
  rw [← hused]
  split
  · next hle =>
    obtain ⟨b₂, hwrite₂, hb₂⟩ := @Holds.write _ _
      (List.replicate (112 - (tail message ++ [0x80]).length) 0) hb₁
      (by rw [List.length_replicate]; omega)
    rw [hwrite₂]
    have hpadded : tail message ++ padded message.length = tail message ++ [0x80] ++
        List.replicate (112 - (tail message ++ [0x80]).length) 0 := by
      unfold padded
      rw [zeroCount_eq, if_pos (by omega), hused, htail, List.append_assoc]
      rfl
    have hlength : (tail message ++ ([0x80] : ByteString) ++
        List.replicate (112 - (tail message ++ [0x80]).length) (0 : UInt8)).length = 112 := by
      rw [List.length_append, List.length_replicate]
      omega
    refine ⟨H, b₂, _, rfl, hlength, hb₂, fun field hfield => ?_⟩
    rw [hpadded, BlockHash.hash_block (by decide) (by rw [List.length_append, hlength, hfield])]
  · next hgt =>
    obtain ⟨b₂, hwrite₂, hb₂⟩ := @Holds.write _ _
      (List.replicate (sha512BlockSize - (tail message ++ [0x80]).length) 0) hb₁
      (by rw [List.length_replicate]; omega)
    rw [hwrite₂]
    have hlength : (tail message ++ ([0x80] : ByteString) ++
        List.replicate (sha512BlockSize - (tail message ++ [0x80]).length) (0 : UInt8)).length =
          128 := by
      rw [List.length_append, List.length_replicate]
      omega
    have hempty : Holds b₂ [] := ⟨hb₂.1, rfl⟩
    obtain ⟨b₃, hwrite₃, hb₃⟩ := @Holds.write _ _ (List.replicate 112 0) hempty
      (by rw [List.length_replicate, List.length_nil]; omega)
    simp only [List.length_nil] at hwrite₃
    simp only
    rw [hwrite₃]
    refine ⟨_, b₃, _, rfl, List.length_replicate, hb₃, fun field hfield => ?_⟩
    have hpadded : tail message ++ padded message.length ++ field = (tail message ++ [0x80] ++
        List.replicate (sha512BlockSize - (tail message ++ [0x80]).length) 0) ++
          (List.replicate 112 0 ++ field) := by
      unfold padded
      rw [zeroCount_eq, if_neg (by omega), hused, htail, hsize, ← List.replicate_append_replicate]
      simp only [List.append_assoc, List.cons_append, List.nil_append]
    rw [hpadded, BlockHash.hash_append (m := 1) (show 0 < 128 by decide) hlength,
      BlockHash.hash_block (by decide) hlength, BlockHash.hash_block (by decide)
      (by rw [List.length_append, List.length_replicate, hfield]),
      mbedtlsInternalSha512ProcessC_eq, hb₂.eq hlength]

/-! ## Digests -/

theorem lengthField_eq {total0 total1 : Uint64} {n : Nat}
    (h : total1.toNat * 2 ^ 64 + total0.toNat = n) (hn : n < 2 ^ 125) :
    putUint64BE ((total0 >>> 61) ||| (total1 <<< 3)) ++ putUint64BE (total0 <<< 3) =
      toBE 16 (8 * n) := by
  have hsmall : total0.toNat / 2 ^ 61 < 2 ^ 3 := by omega
  have hhigh : ((total0 >>> 61) ||| (total1 <<< 3)).toNat = 8 * n / 256 ^ 8 := by
    have hshift : total1.toNat <<< 3 % 2 ^ 64 = total1.toNat <<< 3 := by
      rw [Nat.shiftLeft_eq]
      omega
    rw [BitVec.toNat_or, BitVec.toNat_ushiftRight, BitVec.toNat_shiftLeft, hshift,
      Nat.shiftRight_eq_div_pow, Nat.or_comm, ← Nat.shiftLeft_add_eq_or_of_lt hsmall,
      Nat.shiftLeft_eq]
    omega
  have hlow : (total0 <<< 3).toNat = 8 * n % 256 ^ 8 := by
    rw [BitVec.toNat_shiftLeft, Nat.shiftLeft_eq]
    omega
  have hmod : toBE 8 (8 * n % 256 ^ 8) = toBE 8 (8 * n) := by
    unfold toBE
    rw [toLE_mod]
  unfold putUint64BE
  rw [hhigh, hlow, hmod]
  exact (toBE_add 8 8 (8 * n)).symm

theorem wordBytes_ofFn (H : Registers) :
    (List.ofFn H).flatMap Sha2.wordBytes =
      [H 0, H 1, H 2, H 3, H 4, H 5].flatMap putUint64BE ++ [H 6, H 7].flatMap putUint64BE := by
  rw [← List.flatMap_append]
  rfl

theorem mbedtlsSha512Finish_eq (smaller : Bool) (h : Absorbed H ctx message)
    (hlen : message.length < 2 ^ 125) :
    mbedtlsSha512Finish smaller ctx =
      .ok (if ctx.is384 = 0 then (List.ofFn (Sha2.digest H message)).flatMap Sha2.wordBytes
        else ((List.ofFn (Sha2.digest H message)).flatMap Sha2.wordBytes).take 48) := by
  obtain ⟨state, buffer, x, hfinish, hx, hholds, hhash⟩ :=
    finishPadding_spec smaller (H := ctx.state) ⟨h.length_buffer, h.buffer⟩
  obtain ⟨b₁, hwrite₁, hb₁⟩ := @Holds.write _ _
    (putUint64BE ((ctx.total0 >>> 61) ||| (ctx.total1 <<< 3))) hholds
    (by rw [hx, putUint64BE, length_toBE]; decide)
  have hlength : (x ++ putUint64BE ((ctx.total0 >>> 61) ||| (ctx.total1 <<< 3))).length = 120 := by
    rw [List.length_append, hx, putUint64BE, length_toBE]
  obtain ⟨b₂, hwrite₂, hb₂⟩ := @Holds.write _ _ (putUint64BE (ctx.total0 <<< 3)) hb₁
    (by rw [hlength, putUint64BE, length_toBE])
  have hfield := lengthField_eq h.total hlen
  have hblock : b₂ = x ++ toBE 16 (8 * message.length) := by
    rw [← hfield, ← List.append_assoc]
    exact hb₂.eq (by rw [List.length_append, hlength, putUint64BE, length_toBE])
  rw [hx] at hwrite₁
  rw [hlength] at hwrite₂
  have hdigest : Sha2.compress state b₂ = Sha2.digest H message := by
    have hwhole : message = message.take (128 * (message.length / 128)) ++ tail message :=
      (List.take_append_drop _ _).symm
    have hblocks : (message.take (128 * (message.length / 128))).length =
        message.length / 128 * 128 := by
      rw [List.length_take]
      omega
    have hstate : ctx.state = BlockHash.hash 128 Sha2.compress H
        (message.take (128 * (message.length / 128))) := by
      rw [h.state]
      conv_lhs => rw [hwhole]
      rw [BlockHash.hash_append (by decide) hblocks,
        BlockHash.hash_of_lt (by rw [length_tail]; exact Nat.mod_lt _ (by decide))]
    have hpadding : message ++ BlockHash.padding 128 16 message.length =
        message.take (128 * (message.length / 128)) ++
          (tail message ++ padded message.length ++ toBE 16 (8 * message.length)) := by
      have happend := congrArg (· ++ BlockHash.padding 128 16 message.length) hwhole
      rw [happend]
      unfold BlockHash.padding padded
      simp only [List.append_assoc, List.cons_append]
    unfold Sha2.digest
    rw [hpadding, BlockHash.hash_append (by decide) hblocks, ← hstate,
      hhash _ (length_toBE _ _), hblock]
  unfold mbedtlsSha512Finish
  simp only [h.left_eq]
  rw [hfinish]
  simp only [bind, Except.bind, pure, Except.pure]
  rw [hwrite₁]
  simp only
  rw [hwrite₂]
  simp only
  rw [mbedtlsInternalSha512ProcessC_eq, hdigest, wordBytes_ofFn]
  generalize Sha2.digest H message = D
  have hlength : ([D 0, D 1, D 2, D 3, D 4, D 5].flatMap putUint64BE).length = 48 := by
    simp only [List.flatMap_cons, List.flatMap_nil, List.length_append, putUint64BE,
      length_toBE, List.length_nil]
  by_cases h384 : ctx.is384 = 0
  · rw [if_pos h384, if_pos h384]
  · rw [if_neg h384, if_neg h384, List.take_left' hlength]

theorem initial512_eq :
    ![0x6A09E667F3BCC908, 0xBB67AE8584CAA73B, 0x3C6EF372FE94F82B, 0xA54FF53A5F1D36F1,
      0x510E527FADE682D1, 0x9B05688C2B3E6C1F, 0x1F83D9ABFB41BD6B, 0x5BE0CD19137E2179] =
      fun i : Fin 8 => Sha2.initialWord i := by
  have hall : ∀ i : Fin 8, IsSquareRoot (Sha2.primes.getD i 0)
      (![0x6A09E667F3BCC908, 0xBB67AE8584CAA73B, 0x3C6EF372FE94F82B, 0xA54FF53A5F1D36F1,
        0x510E527FADE682D1, 0x9B05688C2B3E6C1F, 0x1F83D9ABFB41BD6B, 0x5BE0CD19137E2179] i) := by
    rw [primes_eq]
    decide +kernel
  funext i
  exact (initialWord_eq (hall i)).symm

theorem initial384_eq :
    ![0xCBBB9D5DC1059ED8, 0x629A292A367CD507, 0x9159015A3070DD17, 0x152FECD8F70E5939,
      0x67332667FFC00B31, 0x8EB44A8768581511, 0xDB0C2E0D64F98FA7, 0x47B5481DBEFA4FA4] =
      fun i : Fin 8 => Sha2.initialWord (8 + i) := by
  have hall : ∀ i : Fin 8, IsSquareRoot (Sha2.primes.getD (8 + i) 0)
      (![0xCBBB9D5DC1059ED8, 0x629A292A367CD507, 0x9159015A3070DD17, 0x152FECD8F70E5939,
        0x67332667FFC00B31, 0x8EB44A8768581511, 0xDB0C2E0D64F98FA7, 0x47B5481DBEFA4FA4] i) := by
    rw [primes_eq]
    decide +kernel
  funext i
  exact (initialWord_eq (hall i)).symm

theorem run_eq (smaller : Bool) {is384 : Int} {inputs : List ByteString}
    (hstart : mbedtlsSha512Starts mbedtlsSha512Init is384 = .ok ctx) (habsorbed : Absorbed H ctx [])
    (hinputs : ∀ input ∈ inputs, input.length < 2 ^ 64) (hlen : inputs.flatten.length < 2 ^ 125) :
    sha512Run smaller is384 inputs =
      .ok (if ctx.is384 = 0 then
          (List.ofFn (Sha2.digest H inputs.flatten)).flatMap Sha2.wordBytes
        else ((List.ofFn (Sha2.digest H inputs.flatten)).flatMap Sha2.wordBytes).take 48) := by
  obtain ⟨ctx', hupdates, habsorbed', his384⟩ := updates_absorbed smaller habsorbed hinputs
    (by rw [List.length_nil]; omega)
  rw [List.nil_append] at habsorbed'
  unfold sha512Run
  simp only [bind, Except.bind]
  rw [hstart]
  simp only
  have hfold : List.foldlM (mbedtlsSha512Update smaller) ctx inputs = .ok ctx' := hupdates
  rw [hfold]
  simp only
  rw [mbedtlsSha512Finish_eq smaller habsorbed' hlen, his384]

theorem absorbed_start {state : Registers} {is384 : Int} (hstate : state = H) :
    Absorbed H { mbedtlsSha512Init with state := state, is384 := is384 } [] where
  total := by
    simp [mbedtlsSha512Init]
  state := by
    rw [BlockHash.hash_of_lt (by decide)]
    exact hstate
  length_buffer := by
    rw [mbedtlsSha512Init, List.length_replicate, sha512BlockSize]
  buffer := by
    rw [show tail [] = [] from rfl, List.length_nil, List.take_zero]

theorem starts_sha512 :
    ∃ ctx, mbedtlsSha512Starts mbedtlsSha512Init 0 = .ok ctx ∧ ctx.is384 = 0 ∧
      Absorbed (fun i => Sha2.initialWord i) ctx [] :=
  ⟨_, rfl, rfl, absorbed_start initial512_eq⟩

theorem starts_sha384 :
    ∃ ctx, mbedtlsSha512Starts mbedtlsSha512Init 1 = .ok ctx ∧ ctx.is384 = 1 ∧
      Absorbed (fun i => Sha2.initialWord (8 + i)) ctx [] :=
  ⟨_, rfl, rfl, absorbed_start initial384_eq⟩

/-- **SHA-512 and SHA-384.** For every message shorter than `2 ^ 125` bytes in any chunks, either
form of the code computes the digest of the standard, and no write leaves the buffer. -/
theorem sha512_any_chunking (smaller : Bool) (inputs : List ByteString)
    (hinputs : ∀ input ∈ inputs, input.length < 2 ^ 64)
    (hlen : inputs.flatten.length < 2 ^ 125) :
    sha512Run smaller 0 inputs = .ok (Sha2.sha512 inputs.flatten) ∧
      sha512Run smaller 1 inputs = .ok (Sha2.sha384 inputs.flatten) := by
  constructor
  · obtain ⟨ctx, hstart, his384, habsorbed⟩ := starts_sha512
    rw [run_eq smaller hstart habsorbed hinputs hlen, if_pos his384, Sha2.sha512]
  · obtain ⟨ctx, hstart, his384, habsorbed⟩ := starts_sha384
    rw [run_eq smaller hstart habsorbed hinputs hlen, if_neg (by rw [his384]; decide), Sha2.sha384]

/-- Two updates, one of them empty. -/
theorem sha512_any_chunking_abc :
    sha512Run true 0 [[0x61, 0x62], [], [0x63]] = .ok (Sha2.sha512 [0x61, 0x62, 0x63]) ∧
      sha512Run true 1 [[0x61, 0x62], [], [0x63]] = .ok (Sha2.sha384 [0x61, 0x62, 0x63]) :=
  sha512_any_chunking true [[0x61, 0x62], [], [0x63]] (by decide) (by decide)

end TfPsaCrypto.Sha512
