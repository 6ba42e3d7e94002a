import TfPsaCrypto.Builtin.CtrDrbg

/-!
# CTR_DRBG refines SP 800-90A

The key in the AES context and the counter are the working state. Every call is a step of the
standard's instance from this state.
-/

namespace TfPsaCrypto

open Bytes Blocks

namespace CtrDrbg

/-! ## Counters -/

theorem toBE_mod (n v : Nat) : toBE n (v % 256 ^ n) = toBE n v := by
  rw [toBE, toLE_mod, toBE]

theorem incrementWords_append (i : Nat) {x z : ByteString} (hx : x.length = (i + 1) * 4) :
    incrementWords i (x ++ z) = toBE ((i + 1) * 4) (ofBE x + 1) ++ z := by
  induction i generalizing x z with
  | zero =>
    have hmod := toBE_mod 4 (ofBE x + 1)
    rw [incrementWords, slice_head hx, ← List.nil_append (x ++ z),
      storeAt_middle List.length_nil (hx.trans (length_toBE _ _).symm), List.nil_append]
    exact congrArg (· ++ z) hmod
  | succ i ih =>
    obtain ⟨y, w, hy, rfl⟩ : ∃ y w : ByteString, y.length = (i + 1) * 4 ∧ x = y ++ w :=
      ⟨x.take ((i + 1) * 4), x.drop ((i + 1) * 4), List.length_take_of_le (by omega),
        (List.take_append_drop _ x).symm⟩
    have hw : w.length = 4 := by
      rw [List.length_append] at hx
      omega
    have hlt : ofBE w < 256 ^ 4 := hw ▸ ofBE_lt w
    have hword : slice (y ++ (w ++ z)) ((i + 1) * 4) 4 = w := by
      rw [slice_tail (by omega), hy, Nat.sub_self, slice_head hw]
    have hsum : ofBE (y ++ w) + 1 = ofBE y * 256 ^ 4 + (ofBE w + 1) := by
      rw [ofBE_append, hw, Nat.add_assoc]
    have hsplit := toBE_add ((i + 1) * 4) 4 (ofBE (y ++ w) + 1)
    rw [List.append_assoc, incrementWords, hword,
      storeAt_middle hy (hw.trans (length_toBE _ _).symm),
      show (i + 1 + 1) * 4 = (i + 1) * 4 + 4 by omega, hsplit, hsum]
    by_cases hcarry : (ofBE w + 1) % 2 ^ 32 = 0
    · -- the word was all ones
      have hfull : ofBE w + 1 = 256 ^ 4 := by omega
      rw [if_neg (not_not.mpr hcarry), hcarry, ih hy, hfull, ← Nat.succ_mul,
        Nat.mul_div_cancel _ (by decide), List.append_assoc]
      have hlow := toBE_mod 4 ((ofBE y + 1) * 256 ^ 4)
      rw [Nat.mul_mod_left] at hlow
      rw [hlow]
    · have hnext : (ofBE w + 1) % 2 ^ 32 = ofBE w + 1 := by omega
      have hlow := toBE_mod 4 (ofBE y * 256 ^ 4 + (ofBE w + 1))
      have hdiv : (ofBE y * 256 ^ 4 + (ofBE w + 1)) / 256 ^ 4 = ofBE y := by omega
      have hy' := toBE_ofBE y
      rw [hy] at hy'
      rw [Nat.mul_add_mod_self_right, Nat.mod_eq_of_lt (by omega)] at hlow
      rw [if_pos hcarry, hnext, hdiv, ← hlow, hy', List.append_assoc]

theorem ctrIncrementCounter_eq (n : Block 16) : ctrIncrementCounter n = Drbg.increment n := by
  have hwords := incrementWords_append 3 (z := []) (Block.length_toList n)
  rw [List.append_nil, List.append_nil] at hwords
  unfold ctrIncrementCounter Drbg.increment
  rw [hwords]

/-! ## The derivation function -/

section Df

variable {f : Block 16 → Block 16}

theorem dfChain_eq (data : ByteString) (z : Nat) (chain : Block 16)
    (hz : (data.length + 15) / 16 * 16 ≤ data.length + z) :
    dfChain f chain (data ++ List.replicate z 0) data.length =
      some (Blocks.chain f chain (blocksOf 16 data)) := by
  induction hlen : data.length using Nat.strong_induction_on generalizing data chain with
  | _ len ih =>
    subst hlen
    unfold dfChain
    by_cases hnil : data = []
    · subst hnil
      rw [if_pos List.length_nil, blocksOf_nil (by omega)]
      rfl
    have hpos : 0 < data.length := List.length_pos_iff.mpr hnil
    rw [if_neg (by omega), if_neg (by rw [List.length_append, List.length_replicate]; omega),
      Drbg.ofList_take_append_zeros, blocksOf_eq (by omega) hnil]
    by_cases hle : data.length ≥ 16
    · -- a full block, then the rest of the data
      have hrest := ih (data.drop 16).length (by rw [List.length_drop]; omega) (data.drop 16)
        (f (chain.xor (Block.ofList (data.take 16)))) (by rw [List.length_drop]; omega) rfl
      rw [if_pos hle, List.drop_append_of_le_length hle, ← List.length_drop, hrest]
      rfl
    · -- the last block is not full
      have hdrop : data.drop 16 = [] := List.drop_eq_nil_of_le (by omega)
      rw [if_neg hle, Nat.sub_self, hdrop, blocksOf_nil (by omega)]
      unfold dfChain
      rw [if_pos rfl]
      rfl

theorem dfExpand_eq (count : Nat) (iv : Block 16) :
    dfExpand f count iv = Drbg.iterates f iv count := by
  induction count generalizing iv with
  | zero => rfl
  | succ count ih => rw [dfExpand, ih, Drbg.iterates_succ]

theorem writeAt_middle {x y z data : ByteString} {off : Nat} (hx : x.length = off)
    (hy : y.length = data.length) :
    writeAt (x ++ (y ++ z)) off data = some (x ++ (data ++ z)) := by
  unfold writeAt
  rw [if_pos (by simp only [List.length_append]; omega), storeAt_middle hx hy]

def ivBytes (i : Nat) : ByteString := [0, 0, 0, UInt8.ofNat i]

theorem ivBytes_eq {i : Nat} (hi : i < 256) : ivBytes i = toBE 4 i := by
  have hzero : i / 256 = 0 := Nat.div_eq_of_lt hi
  simp [ivBytes, toBE, toLE, hzero]

theorem dfReduce_eq {rest : ByteString} {z : Nat}
    (hz : (4 + rest.length + 15) / 16 * 16 ≤ 4 + rest.length + z) (left i : Nat)
    (hi : i + left ≤ 256) :
    dfReduce f (4 + rest.length) left (ivBytes i ++ (rest ++ List.replicate z 0)) =
      some ((List.range' i left).flatMap fun k =>
        (Blocks.chain f Block.zero (blocksOf 16 (toBE 4 k ++ rest))).toList) := by
  induction left generalizing i with
  | zero => rfl
  | succ left ih =>
    have hchain := dfChain_eq (f := f) (ivBytes i ++ rest) z Block.zero
      (by simpa [ivBytes, Nat.add_comm, Nat.add_left_comm, Nat.add_assoc] using hz)
    have hlen : (ivBytes i ++ rest).length = 4 + rest.length := by
      rw [List.length_append]
      rfl
    have hnext : writeAt (ivBytes i ++ (rest ++ List.replicate z 0)) 3
        [(ivBytes i ++ (rest ++ List.replicate z 0)).getD 3 0 + 1] =
          some (ivBytes (i + 1) ++ (rest ++ List.replicate z 0)) := by
      have hbyte : UInt8.ofNat i + 1 = UInt8.ofNat (i + 1) := by
        rw [UInt8.ofNat_add]
        rfl
      have hwrite := @writeAt_middle [0, 0, 0] [UInt8.ofNat i] (rest ++ List.replicate z 0)
        [UInt8.ofNat i + 1] _ rfl rfl
      rw [hbyte] at hwrite
      have hget : (ivBytes i ++ (rest ++ List.replicate z 0)).getD 3 0 = UInt8.ofNat i := rfl
      rw [hget, hbyte]
      exact hwrite
    rw [hlen, List.append_assoc, ivBytes_eq (by omega)] at hchain
    rw [List.range'_succ, List.flatMap_cons]
    unfold dfReduce
    rw [hnext, ivBytes_eq (by omega), hchain]
    simp only
    rw [ih (i + 1) (by omega)]

end Df

variable {cfg : Config} {aes : ByteString → Block 16 → Block 16}

theorem seedLen_eq : cfg.seedLen = 16 * (cfg.keyBlocks + 1) := by
  unfold Config.seedLen Config.keySize
  omega

theorem dfBuffer_eq {data : ByteString} (hlen : data.length ≤ maxSeedInput) :
    dfBuffer cfg data =
      some (ivBytes 0 ++ ((List.replicate 12 0 ++ Drbg.dfInput cfg.keyBlocks data) ++
        List.replicate (391 - data.length) 0)) := by
  have hsize : cfg.seedLen < 256 := by
    rw [seedLen_eq]
    rcases cfg.keyBlocks_eq with h | h <;> omega
  unfold maxSeedInput at hlen
  generalize hz : 391 - data.length = z
  have hbuf : List.replicate (maxSeedInput + 16 + 16) (0 : UInt8) =
      List.replicate 16 0 ++ (List.replicate 4 0 ++ (List.replicate 3 0 ++ (List.replicate 1 0 ++
        (List.replicate data.length 0 ++ (List.replicate 1 0 ++ List.replicate z 0))))) := by
    simp only [← List.replicate_add]
    congr 1
    unfold maxSeedInput
    omega
  have hlast : dfBuffer cfg data =
      some (List.replicate 16 0 ++ (toBE 4 data.length ++ (List.replicate 3 0 ++
        ([UInt8.ofNat cfg.seedLen] ++ (data ++ ([0x80] ++ List.replicate z 0)))))) := by
    unfold dfBuffer
    simp only
    rw [hbuf, writeAt_middle List.length_replicate (by simp)]
    simp only
    rw [← List.append_assoc (toBE 4 data.length), ← List.append_assoc (List.replicate 16 0),
      writeAt_middle (by simp) (by simp)]
    simp only
    rw [← List.append_assoc _ [UInt8.ofNat cfg.seedLen], writeAt_middle (by simp) (by simp)]
    simp only
    have hoff : ((List.replicate 16 0 ++ (toBE 4 data.length ++ List.replicate 3 0)) ++
        [UInt8.ofNat cfg.seedLen] ++ data).length = 24 + data.length := by
      simp only [List.length_append, List.length_replicate, length_toBE, List.length_singleton]
    rw [← List.append_assoc _ data, writeAt_middle hoff (by simp)]
    simp only [List.append_assoc]
  have hiv : (List.replicate 16 0 : ByteString) = ivBytes 0 ++ List.replicate 12 0 := rfl
  rw [hlast, Drbg.dfInput, ← seedLen_eq, ← ivBytes_eq hsize, hiv]
  simp only [List.append_assoc]
  rfl

theorem blockCipherDf_eq {data : ByteString} (hlen : data.length ≤ maxSeedInput) :
    blockCipherDf cfg aes data = some (.ok (Drbg.blockCipherDf aes cfg.keyBlocks data)) := by
  have hrest : 4 + (List.replicate 12 0 ++ Drbg.dfInput cfg.keyBlocks data).length =
      16 + 8 + data.length + 1 := by
    simp only [Drbg.dfInput, List.length_append, List.length_replicate, length_toBE,
      List.length_singleton]
    omega
  have hblocks : 0 + (cfg.keyBlocks + 1) ≤ 256 := by
    rcases cfg.keyBlocks_eq with h | h <;> omega
  have hreduce := @dfReduce_eq (aes (Drbg.dfKey cfg.keyBlocks))
    (List.replicate 12 0 ++ Drbg.dfInput cfg.keyBlocks data) (391 - data.length)
    (by rw [hrest]; unfold maxSeedInput at hlen; omega) (cfg.keyBlocks + 1) 0 hblocks
  rw [hrest, ← List.range_eq_range'] at hreduce
  unfold blockCipherDf
  rw [if_neg (Nat.not_lt.mpr hlen), dfBuffer_eq hlen]
  simp only
  rw [show (List.range cfg.keySize).map UInt8.ofNat = Drbg.dfKey cfg.keyBlocks from rfl, hreduce]
  simp only
  rw [dfExpand_eq]
  rfl

/-! ## The instance of a context -/

variable {σ : Type} {fEntropy : Drbg.Source σ} {ctx : Context σ}

def Context.working (ctx : Context σ) : Drbg.CtrState := ⟨ctx.key, ctx.counter⟩

def Context.toInstance (ctx : Context σ) : Drbg.Instance Drbg.CtrState σ where
  working := ctx.working
  served := ctx.reseedCounter
  interval := ctx.reseedInterval
  predictionResistance := ctx.predictionResistance ≠ 0
  entropyLen := ctx.entropyLen
  source := ctx.pEntropy

def limits : Drbg.Limits :=
  { request := maxRequest, input := maxInput, reseedInput := maxSeedInput, seed := maxSeedInput }

def mechanism (cfg : Config) (aes : ByteString → Block 16 → Block 16) :
    Drbg.Mechanism Drbg.CtrState :=
  Drbg.ctrMechanism aes cfg.keyBlocks maxSeedInput

def Call.toCall : Call → Drbg.Call
  | .randomWithAdd outputLen additional => .generate outputLen additional
  | .reseed additional => .reseed additional
  | .update additional => .update additional
  | .setPredictionResistance resistance => .setPredictionResistance (resistance ≠ 0)
  | .setEntropyLen len => .setEntropyLen len
  | .setReseedInterval interval => .setReseedInterval interval

def Error.toFailure : Error → Drbg.Failure
  | .requestTooBig => .requestTooBig
  | .inputTooBig => .inputTooBig
  | .entropySourceFailed => .entropySourceFailed

def Result.toOut (r : Result) : Drbg.Out where
  ret := match r.ret with
    | .ok _ => .ok r.output
    | .error e => .error e.toFailure
  reseeded := r.reseeded

def withWorking (I : Drbg.Instance Drbg.CtrState σ) (s : Drbg.CtrState) :
    Drbg.Instance Drbg.CtrState σ := { I with working := s }

/-! ## The functions -/

theorem updateBlocks_eq (key : ByteString) (left : Nat) (counter : Block 16) :
    (updateBlocks aes key left counter).2 = Drbg.ctrBlocks aes key counter left := by
  induction left generalizing counter with
  | zero => rfl
  | succ left ih => rw [updateBlocks, Drbg.ctrBlocks_succ, ih, ctrIncrementCounter_eq]

theorem ctrDrbgUpdateInternal_toInstance (ctx : Context σ) (data : ByteString) :
    (ctrDrbgUpdateInternal cfg aes ctx data).toInstance =
      withWorking ctx.toInstance (Drbg.ctrUpdate aes cfg.keyBlocks data ctx.working) := by
  unfold ctrDrbgUpdateInternal
  rw [updateBlocks_eq]
  rfl

theorem generateBytes_eq (key : ByteString) (outputLen : Nat) (counter : Block 16) :
    generateBytes aes key counter outputLen =
      (Drbg.increment^[(outputLen + 15) / 16] counter,
        (Drbg.ctrBlocks aes key counter ((outputLen + 15) / 16)).take outputLen) := by
  induction outputLen using Nat.strong_induction_on generalizing counter with
  | _ outputLen ih =>
    unfold generateBytes
    by_cases hzero : outputLen = 0
    · subst hzero
      rfl
    have hcount : (outputLen + 15) / 16 = (outputLen - 16 + 15) / 16 + 1 := by omega
    have huse : outputLen - (if outputLen > 16 then 16 else outputLen) = outputLen - 16 := by
      split <;> omega
    have hblock := Block.length_toList (aes key (Drbg.increment counter))
    have htake : (aes key (Drbg.increment counter)).toList.take
        (if outputLen > 16 then 16 else outputLen) =
          (aes key (Drbg.increment counter)).toList.take outputLen := by
      by_cases hgt : outputLen > 16
      · rw [if_pos hgt, List.take_of_length_le (Nat.le_of_eq hblock),
          List.take_of_length_le (by omega)]
      · rw [if_neg hgt]
    rw [if_neg hzero]
    simp only [ctrIncrementCounter_eq]
    rw [huse, htake, ih (outputLen - 16) (by omega), hcount, Drbg.ctrBlocks_succ,
      Function.iterate_succ_apply, List.take_append, hblock]

theorem randomTail_toInstance (ctx : Context σ) (outputLen : Nat) (addInput : ByteString)
    (reseeded : Bool) :
    (randomTail cfg aes ctx outputLen addInput reseeded).1.toInstance =
        { withWorking ctx.toInstance (Drbg.ctrUpdate aes cfg.keyBlocks addInput
            ⟨ctx.key, Drbg.increment^[(outputLen + 15) / 16] ctx.counter⟩) with
          served := ctx.reseedCounter + 1 } ∧
      (randomTail cfg aes ctx outputLen addInput reseeded).2 =
        ⟨.ok (), (Drbg.ctrBlocks aes ctx.key ctx.counter ((outputLen + 15) / 16)).take outputLen,
          reseeded⟩ := by
  unfold randomTail
  simp only
  rw [generateBytes_eq]
  have hupdate := @ctrDrbgUpdateInternal_toInstance cfg aes _
    { ctx with counter := Drbg.increment^[(outputLen + 15) / 16] ctx.counter } addInput
  generalize ctrDrbgUpdateInternal cfg aes
    { ctx with counter := Drbg.increment^[(outputLen + 15) / 16] ctx.counter } addInput = ctx' at *
  have hlast : ({ ctx' with reseedCounter := ctx'.reseedCounter + 1 } : Context σ).toInstance =
      { ctx'.toInstance with served := ctx'.toInstance.served + 1 } := rfl
  rw [hlast, hupdate]
  exact ⟨rfl, rfl⟩

theorem randomAdd_toInstance (ctx : Context σ) (outputLen : Nat) {additional : ByteString}
    (hlen : additional.length ≤ maxSeedInput) (reseeded : Bool) :
    (randomAdd cfg aes ctx outputLen additional reseeded).map
        (fun r => (r.1.toInstance, r.2.toOut)) =
      some (Drbg.serve (mechanism cfg aes) ctx.toInstance outputLen additional reseeded) := by
  unfold randomAdd
  by_cases hnil : additional = []
  · subst hnil
    obtain ⟨hinst, hout⟩ := @randomTail_toInstance cfg aes _ ctx outputLen
      (List.replicate cfg.seedLen 0) reseeded
    rw [if_neg (by simp), Option.map_some, hinst, hout, seedLen_eq]
    rfl
  · have hpos : additional.length > 0 := List.length_pos_iff.mpr hnil
    rw [if_pos hpos, blockCipherDf_eq hlen]
    simp only
    have hupdate := @ctrDrbgUpdateInternal_toInstance cfg aes _ ctx
      (Drbg.blockCipherDf aes cfg.keyBlocks additional)
    generalize ctrDrbgUpdateInternal cfg aes ctx
      (Drbg.blockCipherDf aes cfg.keyBlocks additional) = ctx₁ at hupdate ⊢
    obtain ⟨hinst, hout⟩ := @randomTail_toInstance cfg aes _ ctx₁ outputLen
      (Drbg.blockCipherDf aes cfg.keyBlocks additional) reseeded
    have hworking : ctx₁.working = _ := congrArg Drbg.Instance.working hupdate
    have hserved : ctx₁.reseedCounter = _ := congrArg Drbg.Instance.served hupdate
    have hkey : ctx₁.key = ctx₁.working.K := rfl
    have hcounter : ctx₁.counter = ctx₁.working.V := rfl
    rw [Option.map_some, hinst, hout, hupdate, hserved, hkey, hcounter, hworking]
    unfold Drbg.serve mechanism Drbg.ctrMechanism Drbg.ctrGenerate
    simp only [if_neg hnil]
    rfl

theorem ctrDrbgReseed_toInstance (additional : ByteString) :
    (ctrDrbgReseed cfg aes fEntropy ctx additional).map
        (fun r => (r.1.toInstance, r.2.mapError Error.toFailure)) =
      Drbg.reseed (mechanism cfg aes) limits fEntropy ctx.toInstance additional := by
  unfold ctrDrbgReseed ctrDrbgReseedInternal
  by_cases hbig : limits.reseedInput < additional.length ∨
      limits.seed < ctx.toInstance.entropyLen + additional.length
  · have hbig' : ctx.entropyLen > maxSeedInput ∨
        additional.length > maxSeedInput - ctx.entropyLen - 0 := by
      have hseed : maxSeedInput < additional.length ∨
          maxSeedInput < ctx.entropyLen + additional.length := hbig
      omega
    rw [Drbg.reseed_tooBig hbig]
    by_cases hentropy : ctx.entropyLen > maxSeedInput
    · rw [if_pos hentropy]
      rfl
    · rw [if_neg hentropy, if_neg (Nat.not_lt_zero _), if_pos (hbig'.resolve_left hentropy)]
      rfl
  · have hfits : ¬ (maxSeedInput < additional.length ∨
        maxSeedInput < ctx.entropyLen + additional.length) := hbig
    rw [if_neg (by omega), if_neg (Nat.not_lt_zero _), if_neg (by omega)]
    cases hsource : ctx.pEntropy with
    | none => exact (Drbg.reseed_no_source (I := ctx.toInstance) hbig hsource).symm
    | some pEntropy =>
      simp only
      rcases hget : fEntropy pEntropy ctx.entropyLen with ⟨_ | entropy, pEntropy'⟩
      · exact (Drbg.reseed_failed (I := ctx.toInstance) hbig hsource hget).symm
      have hseed : (entropy.toList ++ additional).length ≤ maxSeedInput := by
        rw [List.length_append, Block.length_toList]
        omega
      rw [Drbg.reseed_ok (I := ctx.toInstance) hbig hsource hget]
      simp only [gatherNonce, ne_eq, not_true_eq_false, if_false, List.append_nil]
      rw [blockCipherDf_eq hseed]
      simp only [Option.map_some]
      have hupdate := @ctrDrbgUpdateInternal_toInstance cfg aes _
        { ctx with pEntropy := some pEntropy' }
        (Drbg.blockCipherDf aes cfg.keyBlocks (entropy.toList ++ additional))
      generalize ctrDrbgUpdateInternal cfg aes { ctx with pEntropy := some pEntropy' }
        (Drbg.blockCipherDf aes cfg.keyBlocks (entropy.toList ++ additional)) = ctx'
        at hupdate ⊢
      have hlast : ({ ctx' with reseedCounter := 0 } : Context σ).toInstance =
          { ctx'.toInstance with served := 0 } := rfl
      rw [hlast, hupdate]
      rfl

theorem ctrDrbgUpdate_toInstance (additional : ByteString) :
    (plain false (ctrDrbgUpdate cfg aes ctx additional)).map
        (fun r => (r.1.toInstance, r.2.toOut)) =
      Drbg.step (mechanism cfg aes) limits fEntropy ctx.toInstance (.update additional) := by
  have hmechanism : (mechanism cfg aes).update additional ctx.toInstance.working =
      if additional = [] then some ctx.working
      else if maxSeedInput < additional.length then none
      else some (Drbg.ctrUpdate aes cfg.keyBlocks
        (Drbg.blockCipherDf aes cfg.keyBlocks additional) ctx.working) := rfl
  simp only [Drbg.step, hmechanism]
  unfold ctrDrbgUpdate
  by_cases hnil : additional = []
  · subst hnil
    rfl
  have hpos : ¬ additional.length = 0 := by
    rw [List.length_eq_zero_iff]
    exact hnil
  rw [if_neg hpos, if_neg hnil]
  by_cases hbig : maxSeedInput < additional.length
  · rw [if_pos hbig, blockCipherDf, if_pos hbig]
    rfl
  · rw [if_neg hbig, blockCipherDf_eq (Nat.not_lt.mp hbig)]
    simp only [plain, Option.map_some, ctrDrbgUpdateInternal_toInstance]
    rfl

theorem drbgMachine_toInstance (hsource : ctx.pEntropy ≠ none) (call : Call) :
    (drbgMachine cfg aes fEntropy ctx call).map (fun r => (r.1.toInstance, r.2.toOut)) =
      Drbg.step (mechanism cfg aes) limits fEntropy ctx.toInstance call.toCall := by
  cases call with
  | randomWithAdd outputLen additional =>
    have hreseed := @ctrDrbgReseed_toInstance cfg aes _ fEntropy ctx additional
    simp only [drbgMachine, Call.toCall, Drbg.step]
    unfold ctrDrbgRandomWithAdd Drbg.generate
    by_cases hrequest : outputLen > maxRequest
    · rw [if_pos hrequest, if_pos (show limits.request < outputLen from hrequest)]
      rfl
    rw [if_neg hrequest, if_neg (show ¬ limits.request < outputLen from hrequest)]
    by_cases hinput : additional.length > maxInput
    · rw [if_pos hinput, if_pos (show limits.input < _ from hinput)]
      rfl
    rw [if_neg hinput, if_neg (show ¬ limits.input < _ from hinput)]
    by_cases hneeded : ctx.reseedCounter ≥ ctx.reseedInterval ∨ ctx.predictionResistance ≠ 0
    · have hneeded' : ctx.toInstance.source.isSome = true ∧
          (ctx.toInstance.predictionResistance = true ∨
            ctx.toInstance.interval ≤ ctx.toInstance.served) :=
        ⟨Option.isSome_iff_ne_none.mpr hsource, hneeded.symm.imp_left decide_eq_true⟩
      rw [if_pos hneeded, if_pos hneeded', ← hreseed]
      rcases ctrDrbgReseed cfg aes fEntropy ctx additional with _ | ⟨ctx', e | _⟩
      · rfl
      · rfl
      · simp only [Option.map_some, Except.mapError]
        rw [randomAdd_toInstance _ _ (Nat.zero_le _)]
    · have hneeded' : ¬ (ctx.toInstance.source.isSome = true ∧
          (ctx.toInstance.predictionResistance = true ∨
            ctx.toInstance.interval ≤ ctx.toInstance.served)) := by
        rintro ⟨_, hor⟩
        exact hneeded (hor.imp_left of_decide_eq_true).symm
      unfold maxInput at hinput
      rw [if_neg hneeded, if_neg hneeded', randomAdd_toInstance _ _ (by unfold maxSeedInput; omega)]
  | reseed additional =>
    have hreseed := @ctrDrbgReseed_toInstance cfg aes _ fEntropy ctx additional
    simp only [drbgMachine, Call.toCall, Drbg.step]
    rw [← hreseed]
    rcases ctrDrbgReseed cfg aes fEntropy ctx additional with _ | ⟨ctx', e | _⟩
    · rfl
    · rfl
    · rfl
  | update additional => exact ctrDrbgUpdate_toInstance additional
  | setPredictionResistance resistance => rfl
  | setEntropyLen len => rfl
  | setReseedInterval interval => rfl

theorem ctrDrbgRandomWithAdd_cases {outputLen : Nat} {additional : ByteString}
    {ctx' : Context σ} {r : Result}
    (h : ctrDrbgRandomWithAdd cfg aes fEntropy ctx outputLen additional = some (ctx', r)) :
    (∃ e, r.ret = .error e ∧ r.output = []) ∨
      (outputLen ≤ maxRequest ∧ additional.length ≤ maxInput ∧
        ∃ ctx₁ addInput reseeded,
          (ctx', r) = randomTail cfg aes ctx₁ outputLen addInput reseeded) := by
  have hadd : ∀ {ctx₁ : Context σ} {data : ByteString} {reseeded : Bool},
      randomAdd cfg aes ctx₁ outputLen data reseeded = some (ctx', r) →
        (∃ e, r.ret = .error e ∧ r.output = []) ∨
          ∃ ctx₁ addInput reseeded,
            (ctx', r) = randomTail cfg aes ctx₁ outputLen addInput reseeded := by
    intro ctx₁ data reseeded h
    unfold randomAdd at h
    split at h
    · split at h
      · cases h
      · cases h
        exact .inl ⟨_, rfl, rfl⟩
      · exact .inr ⟨_, _, _, (Option.some.inj h).symm⟩
    · exact .inr ⟨_, _, _, (Option.some.inj h).symm⟩
  unfold ctrDrbgRandomWithAdd at h
  split at h
  · cases h
    exact .inl ⟨_, rfl, rfl⟩
  split at h
  · cases h
    exact .inl ⟨_, rfl, rfl⟩
  next hrequest hinput =>
    have hlimits : outputLen ≤ maxRequest ∧ additional.length ≤ maxInput :=
      ⟨Nat.not_lt.mp hrequest, Nat.not_lt.mp hinput⟩
    split at h
    · split at h
      · cases h
      · cases h
        exact .inl ⟨_, rfl, rfl⟩
      · exact (hadd h).imp_right fun hserved => ⟨hlimits.1, hlimits.2, hserved⟩
    · exact (hadd h).imp_right fun hserved => ⟨hlimits.1, hlimits.2, hserved⟩

theorem plain_output {reseeded : Bool} {x : Option (Context σ × Except Error Unit)}
    {ctx' : Context σ} {r : Result} (h : plain reseeded x = some (ctx', r)) : r.output = [] := by
  unfold plain at h
  split at h
  · cases h
  · cases h
    rfl
  · cases h
    rfl

theorem drbgMachine_output {call : Call} {ctx' : Context σ} {r : Result}
    (h : drbgMachine cfg aes fEntropy ctx call = some (ctx', r)) :
    (∀ e, r.ret = .error e → r.output = []) ∧
      ∀ outputLen additional, call = .randomWithAdd outputLen additional → r.ret = .ok () →
        outputLen ≤ maxRequest ∧ additional.length ≤ maxInput ∧ r.output.length = outputLen := by
  cases call with
  | randomWithAdd outputLen additional =>
    rcases ctrDrbgRandomWithAdd_cases h with ⟨e, herr, hnone⟩ |
      ⟨hrequest, hinput, ctx₁, addInput, reseeded, heq⟩
    · refine ⟨fun _ _ => hnone, ?_⟩
      intro _ _ _ hok
      rw [hok] at herr
      cases herr
    · have hr : r = (randomTail cfg aes ctx₁ outputLen addInput reseeded).2 := congrArg Prod.snd heq
      rw [(randomTail_toInstance ctx₁ outputLen addInput reseeded).2] at hr
      subst hr
      constructor
      · intro e he
        cases he
      intro n a hcall _
      cases hcall
      refine ⟨hrequest, hinput, ?_⟩
      rw [List.length_take, Drbg.length_ctrBlocks]
      omega
  | reseed additional =>
    exact ⟨fun _ _ => plain_output h, by intro _ _ hcall; cases hcall⟩
  | update additional =>
    exact ⟨fun _ _ => plain_output h, by intro _ _ hcall; cases hcall⟩
  | setPredictionResistance resistance =>
    cases h
    exact ⟨fun _ _ => rfl, by intro _ _ hcall; cases hcall⟩
  | setEntropyLen len =>
    cases h
    exact ⟨fun _ _ => rfl, by intro _ _ hcall; cases hcall⟩
  | setReseedInterval interval =>
    cases h
    exact ⟨fun _ _ => rfl, by intro _ _ hcall; cases hcall⟩

/-! ## Seeding -/

structure Fresh (ctx : Context σ) : Prop where
  counter : ctx.counter = Block.zero
  pEntropy : ctx.pEntropy = none

def seedEntropyLen (ctx : Context σ) : Nat := if ctx.entropyLen = 0 then 32 else ctx.entropyLen

def seedNonceLen (cfg : Config) (ctx : Context σ) : Nat :=
  if ctx.reseedCounter ≥ 0 then ctx.reseedCounter.toNat
  else goodNonceLen cfg (seedEntropyLen ctx)

theorem length_gatherNonce {nonceLen : Nat} {p p' : σ} {nonce : ByteString}
    (h : gatherNonce fEntropy nonceLen p = (some nonce, p')) : nonce.length = nonceLen := by
  unfold gatherNonce at h
  split at h
  · split at h
    · cases h
    · cases h
      exact Block.length_toList _
  · next hzero =>
    cases h
    exact (not_not.mp hzero).symm

theorem ctrDrbgSeed_toInstance (hfresh : Fresh ctx) {pEntropy : σ} {custom : ByteString}
    {ctx' : Context σ}
    (h : ctrDrbgSeed cfg aes fEntropy ctx pEntropy custom = some (ctx', .ok ())) :
    ∃ entropy nonce p₁ p₂,
      fEntropy pEntropy (seedEntropyLen ctx) = (some entropy, p₁) ∧
        gatherNonce fEntropy (seedNonceLen cfg ctx) p₁ = (some nonce, p₂) ∧
        ctx'.toInstance =
          { working := Drbg.ctrInstantiate aes cfg.keyBlocks
              (entropy.toList ++ nonce ++ custom)
            served := 0
            interval := ctx.reseedInterval
            predictionResistance := ctx.predictionResistance ≠ 0
            entropyLen := seedEntropyLen ctx
            source := some p₂ } := by
  unfold ctrDrbgSeed at h
  simp only at h
  have hentropyLen : (if ctx.entropyLen = 0 then 32 else ctx.entropyLen) = seedEntropyLen ctx := rfl
  have hnonceLen : (if ctx.reseedCounter ≥ 0 then ctx.reseedCounter.toNat
      else goodNonceLen cfg (seedEntropyLen ctx)) = seedNonceLen cfg ctx := rfl
  rw [hentropyLen, hnonceLen] at h
  generalize seedEntropyLen ctx = n at h ⊢
  generalize seedNonceLen cfg ctx = m at h ⊢
  unfold ctrDrbgReseedInternal at h
  simp only at h
  split at h
  · cases h
  next hn =>
  split at h
  · cases h
  next hm =>
  split at h
  · cases h
  next hcustom =>
  rcases hentropy : fEntropy pEntropy n with ⟨_ | entropy, p₁⟩
  · rw [hentropy] at h
    cases h
  rcases hnonce : gatherNonce fEntropy m p₁ with ⟨_ | nonce, p₂⟩
  · simp only [hentropy, hnonce] at h
    cases h
  have hseed : (entropy.toList ++ nonce ++ custom).length ≤ maxSeedInput := by
    have hlen := length_gatherNonce hnonce
    simp only [List.length_append, Block.length_toList]
    omega
  simp only [hentropy, hnonce] at h
  rw [blockCipherDf_eq hseed] at h
  refine ⟨entropy, nonce, p₁, p₂, rfl, hnonce, ?_⟩
  have hctx := congrArg Prod.fst (Option.some.inj h)
  simp only at hctx
  have hupdate := @ctrDrbgUpdateInternal_toInstance cfg aes _
    { ctx with
        pEntropy := some p₂, entropyLen := n, key := List.replicate cfg.keySize 0 }
    (Drbg.blockCipherDf aes cfg.keyBlocks (entropy.toList ++ nonce ++ custom))
  generalize ctrDrbgUpdateInternal cfg aes _
    (Drbg.blockCipherDf aes cfg.keyBlocks (entropy.toList ++ nonce ++ custom)) = ctx₁
    at hupdate hctx
  have hlast : ({ ctx₁ with reseedCounter := 0 } : Context σ).toInstance =
      { ctx₁.toInstance with served := 0 } := rfl
  have hworking : Context.working
      { ctx with
          pEntropy := some p₂, entropyLen := n, key := List.replicate cfg.keySize 0 } =
        ⟨List.replicate (16 * cfg.keyBlocks) 0, Block.zero⟩ := by
    rw [hfresh.counter]
    rfl
  rw [← hctx, hlast, hupdate, hworking]
  rfl

theorem ctrDrbgReseedInternal_ok {additional : ByteString} {nonceLen : Nat} {p₀ p₁ p₂ : σ}
    {entropy : Block ctx.entropyLen} {nonce : ByteString}
    (hentropyLen : ctx.entropyLen ≤ maxSeedInput)
    (hnonceLen : nonceLen ≤ maxSeedInput - ctx.entropyLen)
    (hlen : additional.length ≤ maxSeedInput - ctx.entropyLen - nonceLen)
    (hsource : ctx.pEntropy = some p₀) (hentropy : fEntropy p₀ ctx.entropyLen = (some entropy, p₁))
    (hnonce : gatherNonce fEntropy nonceLen p₁ = (some nonce, p₂)) :
    ∃ ctx', ctrDrbgReseedInternal cfg aes fEntropy ctx additional nonceLen =
      some (ctx', .ok ()) := by
  have hseed : (entropy.toList ++ nonce ++ additional).length ≤ maxSeedInput := by
    have hlength := length_gatherNonce hnonce
    simp only [List.length_append, Block.length_toList]
    omega
  unfold ctrDrbgReseedInternal
  rw [if_neg (Nat.not_lt.mpr hentropyLen), if_neg (Nat.not_lt.mpr hnonceLen),
    if_neg (Nat.not_lt.mpr hlen), hsource]
  simp only [hentropy, hnonce]
  rw [blockCipherDf_eq hseed]
  exact ⟨_, rfl⟩

def Seeded (cfg : Config) (aes : ByteString → Block 16 → Block 16) (fEntropy : Drbg.Source σ)
    (ctx : Context σ) : Prop :=
  ∃ ctx₀ pEntropy custom, Fresh ctx₀ ∧
    ctrDrbgSeed cfg aes fEntropy ctx₀ pEntropy custom = some (ctx, .ok ())

theorem Seeded.start (h : Seeded cfg aes fEntropy ctx) :
    ctx.pEntropy ≠ none ∧ ctx.reseedCounter = 0 := by
  obtain ⟨ctx₀, pEntropy, custom, hfresh, hseed⟩ := h
  obtain ⟨_, _, _, p₂, _, _, hinst⟩ := ctrDrbgSeed_toInstance hfresh hseed
  have hsource : ctx.pEntropy = some p₂ := congrArg Drbg.Instance.source hinst
  have hcounter : ctx.reseedCounter = 0 := congrArg Drbg.Instance.served hinst
  exact ⟨by rw [hsource]; simp, hcounter⟩

/-! ## Runs -/

def toTrace (tr : List (Call × Result)) : List (Drbg.Call × Drbg.Out) :=
  tr.map (Prod.map Call.toCall Result.toOut)

theorem run_toInstance (hsource : ctx.pEntropy ≠ none) {tr : List (Call × Result)}
    {ctx' : Context σ} (hrun : Machine.Run (drbgMachine cfg aes fEntropy) ctx tr ctx') :
    ctx'.pEntropy ≠ none ∧
      Machine.Run (Drbg.step (mechanism cfg aes) limits fEntropy) ctx.toInstance (toTrace tr)
        ctx'.toInstance := by
  apply Machine.Run.simulate (I := fun ctx => ctx.pEntropy ≠ none) (P := fun _ => True) hsource
    ?_ hrun (fun _ _ => trivial)
  intro s call s' r hs _ hstep
  have hsim := @drbgMachine_toInstance cfg aes _ fEntropy _ hs call
  rw [hstep] at hsim
  have hsome := (Drbg.step_cases hsim.symm).1
  exact ⟨Option.isSome_iff_ne_none.mp (hsome.trans (Option.isSome_iff_ne_none.mpr hs)), hsim.symm⟩

theorem call_cases (hsource : ctx.pEntropy ≠ none) (hzero : ctx.reseedCounter = 0)
    {tr : List (Call × Result)} {ctx' : Context σ}
    (hrun : Machine.Run (drbgMachine cfg aes fEntropy) ctx tr ctx') (call : Call) :
    ∃ ctx'' r, drbgMachine cfg aes fEntropy ctx' call = some (ctx'', r) ∧
      (∀ e, r.ret = .error e → r.output = [] ∧ ctx''.working = ctx'.working ∧
        ctx''.reseedCounter = ctx'.reseedCounter) ∧
      ∀ outputLen additional, call = .randomWithAdd outputLen additional → r.ret = .ok () →
        outputLen ≤ maxRequest ∧ additional.length ≤ maxInput ∧ r.output.length = outputLen ∧
          (Drbg.requests (toTrace (tr ++ [(call, r)])) : Int) ≤ max 1 ctx'.reseedInterval := by
  obtain ⟨hsource', hspec⟩ := run_toInstance hsource hrun
  have hsim := @drbgMachine_toInstance cfg aes _ fEntropy _ hsource' call
  obtain ⟨I', o, htotal⟩ := @Drbg.step_total _ _ (mechanism cfg aes) limits fEntropy
    ctx'.toInstance (Option.isSome_iff_ne_none.mpr hsource') call.toCall
  rcases hstep : drbgMachine cfg aes fEntropy ctx' call with _ | ⟨ctx'', r⟩
  · rw [hstep, htotal] at hsim
    cases hsim
  rw [hstep] at hsim
  have hout := drbgMachine_output hstep
  refine ⟨ctx'', r, rfl, ?_, ?_⟩
  · intro e he
    refine ⟨hout.1 e he, ?_⟩
    have hret : r.toOut.ret = .error e.toFailure := by
      simp only [Result.toOut, he]
    exact Drbg.step_error hsim.symm hret
  · intro outputLen additional hcall hok
    obtain ⟨hrequest, hinput, hlen⟩ := hout.2 outputLen additional hcall hok
    refine ⟨hrequest, hinput, hlen, ?_⟩
    have hserved : Drbg.Served (call.toCall, r.toOut) = true := by
      subst hcall
      simp only [Drbg.Served, Call.toCall, Result.toOut, hok]
    have hbound := @Drbg.requests_le_interval _ _ _ _ _ _ _ _ _ ctx.toInstance _ hzero
      (Option.isSome_iff_ne_none.mpr hsource) hspec hsim.symm hserved
    unfold toTrace at hbound ⊢
    rw [List.map_append]
    exact hbound

/-! ## The result -/

/-- CTR_DRBG refines SP 800-90A: the derivation function is the standard's and stays within its
buffer; seeding is CTR_DRBG_Instantiate; every run is a run of the standard's instance; a call that
fails changes nothing, and a request is within the limits and, unless it is the first since a
reseed, the interval. -/
theorem ctr_drbg_refines (cfg : Config) (aes : ByteString → Block 16 → Block 16) {σ : Type}
    (fEntropy : Drbg.Source σ) :
    (∀ data : ByteString, data.length ≤ maxSeedInput →
      blockCipherDf cfg aes data = some (.ok (Drbg.blockCipherDf aes cfg.keyBlocks data))) ∧
    (∀ (ctx₀ ctx : Context σ) pEntropy custom, Fresh ctx₀ →
      ctrDrbgSeed cfg aes fEntropy ctx₀ pEntropy custom = some (ctx, .ok ()) →
        ∃ entropy nonce p₁ p₂,
          fEntropy pEntropy (seedEntropyLen ctx₀) = (some entropy, p₁) ∧
            gatherNonce fEntropy (seedNonceLen cfg ctx₀) p₁ = (some nonce, p₂) ∧
            ctx.toInstance =
              { working := Drbg.ctrInstantiate aes cfg.keyBlocks
                  (entropy.toList ++ nonce ++ custom)
                served := 0
                interval := ctx₀.reseedInterval
                predictionResistance := ctx₀.predictionResistance ≠ 0
                entropyLen := seedEntropyLen ctx₀
                source := some p₂ }) ∧
    ∀ ctx tr ctx', Seeded cfg aes fEntropy ctx →
      Machine.Run (drbgMachine cfg aes fEntropy) ctx tr ctx' →
        Machine.Run (Drbg.step (mechanism cfg aes) limits fEntropy) ctx.toInstance (toTrace tr)
            ctx'.toInstance ∧
          ∀ call, ∃ ctx'' r, drbgMachine cfg aes fEntropy ctx' call = some (ctx'', r) ∧
            (∀ e, r.ret = .error e → r.output = [] ∧ ctx''.working = ctx'.working ∧
              ctx''.reseedCounter = ctx'.reseedCounter) ∧
            ∀ outputLen additional, call = .randomWithAdd outputLen additional → r.ret = .ok () →
              outputLen ≤ maxRequest ∧ additional.length ≤ maxInput ∧
                r.output.length = outputLen ∧
                (Drbg.requests (toTrace (tr ++ [(call, r)])) : Int) ≤
                  max 1 ctx'.reseedInterval := by
  refine ⟨?_, ?_, ?_⟩
  · intro data hlen
    exact blockCipherDf_eq hlen
  · intro ctx₀ ctx pEntropy custom hfresh hseed
    exact ctrDrbgSeed_toInstance hfresh hseed
  intro ctx tr ctx' hseeded hrun
  obtain ⟨hsource, hzero⟩ := hseeded.start
  refine ⟨(run_toInstance hsource hrun).2, ?_⟩
  intro call
  exact call_cases hsource hzero hrun call

def config128 : Config := ⟨1, .inl rfl⟩

def idCipher : ByteString → Block 16 → Block 16 := fun _ x => x

def zeroSource : Drbg.Source Unit := fun s _ => (some Block.zero, s)

def everyTime : Context Unit := { ctrDrbgInit with reseedInterval := 0 }

def everyTimeStarted : Context Unit :=
  { everyTime with pEntropy := some (), entropyLen := 32, key := List.replicate 16 0 }

theorem seed_everyTime :
    ∃ ctx, ctrDrbgSeed config128 idCipher zeroSource everyTime () [] = some (ctx, .ok ()) ∧
      ctx.reseedInterval = 0 ∧ ctx.pEntropy = some () ∧ ctx.reseedCounter = 0 ∧
      ctx.entropyLen = 32 := by
  have hseed : ∃ ctx, ctrDrbgSeed config128 idCipher zeroSource everyTime () [] =
      some (ctx, .ok ()) := by
    have hstart : ctrDrbgSeed config128 idCipher zeroSource everyTime () [] =
        ctrDrbgReseedInternal config128 idCipher zeroSource everyTimeStarted [] 0 := rfl
    have hentropy : zeroSource () everyTimeStarted.entropyLen = (some Block.zero, ()) := rfl
    rw [hstart]
    exact ctrDrbgReseedInternal_ok (by decide) (by decide) (by decide) rfl hentropy rfl
  obtain ⟨ctx, hctx⟩ := hseed
  obtain ⟨_, _, _, _, _, _, hinst⟩ := ctrDrbgSeed_toInstance ⟨rfl, rfl⟩ hctx
  exact ⟨ctx, hctx, congrArg Drbg.Instance.interval hinst, congrArg Drbg.Instance.source hinst,
    congrArg Drbg.Instance.served hinst, congrArg Drbg.Instance.entropyLen hinst⟩

theorem random_due {ctx : Context Unit} (hsource : ctx.pEntropy = some ())
    (hlen : ctx.entropyLen = 32) (hdue : ctx.reseedCounter ≥ ctx.reseedInterval) :
    ∃ ctx' r, drbgMachine config128 idCipher zeroSource ctx (.randomWithAdd 0 []) =
        some (ctx', r) ∧
      r.ret = .ok () ∧ r.reseeded = true ∧ ctx'.pEntropy = some () ∧ ctx'.entropyLen = 32 ∧
      ctx'.reseedInterval = ctx.reseedInterval ∧ ctx'.reseedCounter = 1 := by
  have hsim := @drbgMachine_toInstance config128 idCipher _ zeroSource ctx
    (by rw [hsource]; simp) (.randomWithAdd 0 [])
  have hfits : ¬ (limits.reseedInput < ([] : ByteString).length ∨
      limits.seed < ctx.toInstance.entropyLen + ([] : ByteString).length) := by
    show ¬ (limits.reseedInput < 0 ∨ limits.seed < ctx.entropyLen + 0)
    rw [hlen]
    decide
  have hreseed := @Drbg.reseed_ok _ _ (mechanism config128 idCipher) limits zeroSource _ _ hfits
    _ _ hsource _ rfl
  have hstep := Drbg.generate_due (n := 0) (by decide) (by decide)
    (Option.isSome_iff_exists.mpr ⟨(), hsource⟩) (.inr hdue) hreseed
  rw [show Drbg.step (mechanism config128 idCipher) limits zeroSource ctx.toInstance
    (Call.randomWithAdd 0 []).toCall = _ from hstep] at hsim
  rcases hcall : drbgMachine config128 idCipher zeroSource ctx (.randomWithAdd 0 []) with
    _ | ⟨ctx', r⟩
  · rw [hcall] at hsim
    cases hsim
  · rw [hcall] at hsim
    obtain ⟨hinst, hout⟩ := Prod.mk.inj (Option.some.inj hsim)
    refine ⟨ctx', r, rfl, ?_, congrArg Drbg.Out.reseeded hout, congrArg Drbg.Instance.source hinst,
      (congrArg Drbg.Instance.entropyLen hinst).trans hlen, congrArg Drbg.Instance.interval hinst,
      congrArg Drbg.Instance.served hinst⟩
    have hret := congrArg Drbg.Out.ret hout
    simp only [Result.toOut] at hret
    rcases hr : r.ret with e | _
    · rw [hr] at hret
      cases hret
    · rfl

theorem ctr_drbg_refines_witness :
    ∃ ctx tr ctx', Seeded config128 idCipher zeroSource ctx ∧ tr.length = 1 ∧
      Machine.Run (drbgMachine config128 idCipher zeroSource) ctx tr ctx' ∧
      Machine.Run (Drbg.step (mechanism config128 idCipher) limits zeroSource) ctx.toInstance
        (toTrace tr) ctx'.toInstance := by
  obtain ⟨ctx, hseed, hinterval, hsource, hcounter, hlen⟩ := seed_everyTime
  obtain ⟨ctx', r, hcall, _⟩ := random_due hsource hlen (by rw [hcounter, hinterval])
  have hseeded : Seeded config128 idCipher zeroSource ctx := ⟨_, _, _, ⟨rfl, rfl⟩, hseed⟩
  have hnil : Machine.Run (drbgMachine config128 idCipher zeroSource) ctx [] ctx := .nil
  have hrun := hnil.snoc hcall
  have hspec := (ctr_drbg_refines config128 idCipher zeroSource).2.2 ctx _ ctx' hseeded hrun
  exact ⟨ctx, _, ctx', hseeded, rfl, hrun, hspec.1⟩

/-- **Counterexample.** With the reseed interval 0 every request reseeds, and one request is
served between two reseeds. -/
theorem ctr_drbg_interval_zero :
    ∃ ctx ctx₁ r₁ ctx₂ r₂,
      Seeded config128 idCipher zeroSource ctx ∧
      drbgMachine config128 idCipher zeroSource ctx (.randomWithAdd 0 []) = some (ctx₁, r₁) ∧
      drbgMachine config128 idCipher zeroSource ctx₁ (.randomWithAdd 0 []) = some (ctx₂, r₂) ∧
      r₁.reseeded = true ∧ r₂.reseeded = true ∧ ctx.reseedInterval = 0 ∧
      ctx₁.reseedInterval = 0 ∧
      Drbg.requests (toTrace [(.randomWithAdd 0 [], r₁)]) = 1 := by
  obtain ⟨ctx, hseed, hinterval, hsource, hcounter, hlen⟩ := seed_everyTime
  obtain ⟨ctx₁, r₁, hcall₁, hret₁, hre₁, hsource₁, hlen₁, hinterval₁, hcounter₁⟩ :=
    random_due hsource hlen (by rw [hcounter, hinterval])
  obtain ⟨ctx₂, r₂, hcall₂, _, hre₂, _⟩ :=
    random_due hsource₁ hlen₁ (by rw [hcounter₁, hinterval₁, hinterval]; decide)
  refine ⟨ctx, ctx₁, r₁, ctx₂, r₂, ⟨_, _, _, ⟨rfl, rfl⟩, hseed⟩, hcall₁, hcall₂, hre₁, hre₂,
    hinterval, hinterval₁.trans hinterval, ?_⟩
  have hsnoc := Drbg.requests_snoc [] ((Call.randomWithAdd 0 []).toCall, r₁.toOut)
  have hserved : Drbg.Served ((Call.randomWithAdd 0 []).toCall, r₁.toOut) = true := by
    simp only [Drbg.Served, Call.toCall, Result.toOut, hret₁]
  have hre : r₁.toOut.reseeded = true := hre₁
  simp only [hre, hserved, if_true] at hsnoc
  exact hsnoc

end CtrDrbg

end TfPsaCrypto
