import TfPsaCrypto.Builtin.CcmProtocol

/-!
# CCM: chunks and one-shot calls

`mbedtls_ccm_encrypt_and_tag`, `mbedtls_ccm_auth_decrypt` and the CCM* variants, and calls that
pass the data in chunks.
-/

namespace TfPsaCrypto

open Bytes Blocks CounterCbcMac CounterStream

/-! ## The one-shot calls -/

inductive CcmAuthRet where
  | ret (code : CcmRet)
  | authFailed
  deriving DecidableEq, Repr

/-- The result of a one-shot call: the context it leaves, and the bytes written to the output
and to the tag. -/
structure CcmOneShot where
  ret : CcmAuthRet
  ctx : MbedtlsCcmContext
  output : ByteString
  tag : ByteString

section OneShot

variable (cipher : BlockCipher) (sizeMod : Nat) (ctx : MbedtlsCcmContext)

def ccmAuthCrypt (mode : CcmMode) (iv add input : ByteString) (tagLen : Nat) : CcmOneShot :=
  let starts := mbedtlsCcmStarts cipher ctx mode iv
  if starts.ret ≠ .ok then ⟨.ret starts.ret, starts.ctx, [], []⟩
  else
    let set := mbedtlsCcmSetLengths cipher starts.ctx add.length input.length tagLen
    if set.ret ≠ .ok then ⟨.ret set.ret, set.ctx, [], []⟩
    else
      let ad := mbedtlsCcmUpdateAd cipher sizeMod set.ctx add
      if ad.ret ≠ .ok then ⟨.ret ad.ret, ad.ctx, [], []⟩
      else
        let update := mbedtlsCcmUpdate cipher sizeMod ad.ctx input input.length
        if update.ret ≠ .ok then ⟨.ret update.ret, update.ctx, update.output, []⟩
        else
          let finish := mbedtlsCcmFinish cipher update.ctx tagLen
          if finish.ret ≠ .ok then ⟨.ret finish.ret, finish.ctx, update.output, []⟩
          else ⟨.ret .ok, finish.ctx, update.output, finish.output⟩

/-- The tag that is calculated is not given to the caller. -/
def ccmAuthDecrypt (mode : CcmMode) (iv add input tag : ByteString) (tagLen : Nat) : CcmOneShot :=
  let r := ccmAuthCrypt cipher sizeMod ctx mode iv add input tagLen
  if r.ret ≠ .ret .ok then { r with tag := [] }
  else if tag.take tagLen ≠ r.tag then
    ⟨.authFailed, r.ctx, List.replicate input.length 0, []⟩
  else { r with tag := [] }

def mbedtlsCcmEncryptAndTag (iv add input : ByteString) (tagLen : Nat) : CcmOneShot :=
  ccmAuthCrypt cipher sizeMod ctx .encrypt iv add input tagLen

def mbedtlsCcmStarEncryptAndTag (iv add input : ByteString) (tagLen : Nat) : CcmOneShot :=
  ccmAuthCrypt cipher sizeMod ctx .starEncrypt iv add input tagLen

def mbedtlsCcmAuthDecrypt (iv add input tag : ByteString) (tagLen : Nat) : CcmOneShot :=
  ccmAuthDecrypt cipher sizeMod ctx .decrypt iv add input tag tagLen

def mbedtlsCcmStarAuthDecrypt (iv add input tag : ByteString) (tagLen : Nat) : CcmOneShot :=
  ccmAuthDecrypt cipher sizeMod ctx .starDecrypt iv add input tag tagLen

def ccmCalls : MbedtlsCcmContext → List CcmCall → Option (ByteString × MbedtlsCcmContext)
  | ctx, [] => some ([], ctx)
  | ctx, call :: calls =>
    let r := ccmCall cipher sizeMod ctx call
    if r.ret ≠ .ok then none
    else (ccmCalls r.ctx calls).map fun rest => (r.output ++ rest.1, rest.2)

def ccmStartCalls (startsFirst : Bool) (mode : CcmMode) (iv : ByteString)
    (totalAdLen plaintextLen tagLen : Nat) : List CcmCall :=
  if startsFirst then [.starts mode iv, .setLengths totalAdLen plaintextLen tagLen]
  else [.setLengths totalAdLen plaintextLen tagLen, .starts mode iv]

def ccmChunkCalls (ads inputs : List ByteString) : List CcmCall :=
  ads.map .updateAd ++ inputs.map fun input => .update input input.length

/-- An operation in several calls: the output, and what `mbedtls_ccm_finish` gives. -/
def ccmMultipart (startsFirst : Bool) (mode : CcmMode) (iv : ByteString)
    (ads inputs : List ByteString)
    (tagLen : Nat) : Option (ByteString × ByteString) :=
  match ccmCalls cipher sizeMod .init
      (ccmStartCalls startsFirst mode iv ads.flatten.length inputs.flatten.length tagLen ++
        ccmChunkCalls ads inputs) with
  | none => none
  | some (output, ctx) =>
    let finish := mbedtlsCcmFinish cipher ctx tagLen
    if finish.ret ≠ .ok then none else some (output, finish.output)

end OneShot

/-! ## A cipher that does not fail -/

def totalCipher (e : Block 16 → Block 16) : BlockCipher := fun b => .ok (e b)

variable {e : Block 16 → Block 16} {nonce : ByteString} {sizeMod : Nat}

theorem answers_totalCipher (e : Block 16 → Block 16) : Answers e (totalCipher e) := by
  intro x y h
  cases h
  rfl

theorem ccmUpdateAdLoop_total (fuel : Nat) (ctx : MbedtlsCcmContext) (add : ByteString) :
    (ccmUpdateAdLoop (totalCipher e) sizeMod fuel ctx add).ret = .ok := by
  induction fuel generalizing ctx add with
  | zero => rfl
  | succ fuel ih =>
    unfold ccmUpdateAdLoop
    split
    · rfl
    simp only
    split
    · split
      · next hfail => exact absurd rfl hfail
      · exact ih _ _
    · exact ih _ _

theorem ccmUpdateRound_total (ctx : MbedtlsCcmContext) (offset : Nat) (input : ByteString) :
    (ccmUpdateRound (totalCipher e) ctx offset input).ret = .ok := by
  have hauth : ∀ (ctx : MbedtlsCcmContext) (data : ByteString) (blockEnd : Bool),
      (ccmAuthenticate (totalCipher e) ctx offset data blockEnd).ret = .ok := by
    intro ctx data blockEnd
    cases blockEnd <;> rfl
  have hcrypt : ∀ (ctx : MbedtlsCcmContext) (input : ByteString),
      (mbedtlsCcmCrypt (totalCipher e) ctx offset input).ret = .ok := fun _ _ => rfl
  have hpiece : ∀ (ctx : MbedtlsCcmContext) (blockEnd : Bool),
      (if ctx.mode.isEncrypt then ccmEncryptPiece (totalCipher e) ctx offset input blockEnd
        else if ctx.mode.isDecrypt then ccmDecryptPiece (totalCipher e) ctx offset input blockEnd
        else ctx.returns .ok).ret = .ok := by
    intro ctx blockEnd
    split
    · unfold ccmEncryptPiece
      rw [if_neg (by rw [hauth]; simp)]
      exact hcrypt _ _
    split
    · unfold ccmDecryptPiece
      rw [if_neg (by rw [hcrypt]; simp)]
      exact hauth _ _ _
    · rfl
  unfold ccmUpdateRound
  rw [if_neg (by rw [hpiece]; simp)]
  split <;> exact hpiece _ _

theorem ccmUpdateLoop_total (fuel : Nat) (ctx : MbedtlsCcmContext) (input : ByteString) :
    (ccmUpdateLoop (totalCipher e) sizeMod fuel ctx input).ret = .ok := by
  induction fuel generalizing ctx input with
  | zero => rfl
  | succ fuel ih =>
    unfold ccmUpdateLoop
    split
    · rfl
    · simp only
      rw [if_neg (by rw [ccmUpdateRound_total]; simp)]
      exact ih _ _

/-! ## The calls of an operation -/

/-- After both calls that start an operation, with `ad` and `input` accepted so far. -/
structure CcmAt (e : Block 16 → Block 16) (nonce : ByteString) (mode : CcmMode) (a p t : Nat)
    (ad input : ByteString) (ctx : MbedtlsCcmContext) : Prop where
  noError : ctx.state.error = false
  mode : ctx.mode = mode
  addLen : ctx.addLen = a
  plaintextLen : ctx.plaintextLen = p
  tagLen : ctx.tagLen = t
  finished : ad.length = a → ctx.addLen = 0 ∨ ctx.state.authDataFinished = true
  running : ∃ tr, CcmRunning e tr ctx nonce ∧ acceptedAd tr = ad ∧ acceptedInput tr = input

section At

variable {mode : CcmMode} {a p t : Nat} {ad input : ByteString} {ctx : MbedtlsCcmContext}

theorem CcmAt.updateAd (h : CcmAt e nonce mode a p t ad [] ctx) {add : ByteString}
    (hle : (ad ++ add).length ≤ a) (ha : a < sizeMod) :
    (mbedtlsCcmUpdateAd (totalCipher e) sizeMod ctx add).ret = .ok ∧
      (mbedtlsCcmUpdateAd (totalCipher e) sizeMod ctx add).output = [] ∧
      CcmAt e nonce mode a p t (ad ++ add) []
        (mbedtlsCcmUpdateAd (totalCipher e) sizeMod ctx add).ctx := by
  obtain ⟨tr, hrun, rfl, hin⟩ := h.running
  rw [List.length_append] at hle
  by_cases hne : add = []
  · subst hne
    have hr : mbedtlsCcmUpdateAd (totalCipher e) sizeMod ctx [] = ctx.returns .ok := by
      unfold mbedtlsCcmUpdateAd
      rw [if_neg (by rw [h.noError]; simp), if_pos List.length_nil]
    rw [hr, List.append_nil]
    exact ⟨rfl, rfl, h⟩
  · have hpos : 0 < add.length := List.length_pos_iff.mpr hne
    have hphase : CcmAdPhase e tr ctx nonce := by
      apply hrun.phase.resolve_right
      intro hmessage
      have hall := hmessage.allAd
      rw [h.addLen] at hall
      omega
    have hproc := hphase.processed
    have haddLen := h.addLen
    have hfresh : ctx.state.authDataStarted = false → ctx.state.authDataFinished = false →
        ctx.addLen > 0 → ctx.processed = 0 := by
      intro hstarted _ _
      rw [hproc, (hphase.first hstarted).1, List.length_nil]
    have hloop : ∀ ctx, (ccmUpdateAdLoop (totalCipher e) sizeMod add.length ctx add).ret = .ok :=
      fun ctx => ccmUpdateAdLoop_total add.length ctx add
    have hret : (mbedtlsCcmUpdateAd (totalCipher e) sizeMod ctx add).ret = .ok := by
      unfold mbedtlsCcmUpdateAd
      rw [if_neg (by rw [h.noError]; simp), if_neg (by omega),
        if_neg (by rw [hphase.unfinished.2]; simp), if_neg (by omega),
        if_neg (by rw [Nat.mod_eq_of_lt (by omega)]; omega)]
      rw [if_neg (by rw [hloop]; simp)]
      split
      · split <;> exact hloop _
      · split <;> exact hloop _
    rcases mbedtlsCcmUpdateAd_cases (answers_totalCipher e) hfresh
      (.inr (show ctx.processed + add.length < sizeMod by omega)) with
      ⟨hbad, _⟩ | ⟨hnil, _⟩ | ⟨_, _, _, hfit, hr⟩
    · exact absurd hret hbad
    · exact absurd hnil hne
    · rw [hr]
      refine ⟨rfl, rfl, h.noError, h.mode, h.addLen, h.plaintextLen, h.tagLen, ?_, ?_⟩
      · intro hall
        rw [List.length_append] at hall
        exact .inr (decide_eq_true (by omega))
      refine ⟨tr ++ [((.updateAd add, totalCipher e), _)], hrun.absorbedAd hphase hne hfit, ?_, ?_⟩
      · rw [acceptedAd_snoc]
        simp [CcmEvent.ad, MbedtlsCcmContext.returns]
      · rw [acceptedInput_snoc, hin]
        rfl

theorem CcmAt.update (h : CcmAt e nonce mode a p t ad input ctx) (hsize : 16 ∣ sizeMod)
    (had : ad.length = a) {x : ByteString} (hle : (input ++ x).length ≤ p) (hp : p < sizeMod) :
    (mbedtlsCcmUpdate (totalCipher e) sizeMod ctx x x.length).ret = .ok ∧
      (mbedtlsCcmUpdate (totalCipher e) sizeMod ctx x x.length).output =
        encrypt e nonce input.length x ∧
      CcmAt e nonce mode a p t ad (input ++ x)
        (mbedtlsCcmUpdate (totalCipher e) sizeMod ctx x x.length).ctx := by
  obtain ⟨tr, hrun, rfl, rfl⟩ := h.running
  rw [List.length_append] at hle
  have hphase : CcmMessagePhase e tr ctx nonce := by
    apply hrun.phase.resolve_left
    intro hadPhase
    obtain ⟨hpos, hunfinished⟩ := hadPhase.unfinished
    rcases h.finished had with hzero | hfinished
    · omega
    · rw [hunfinished] at hfinished
      exact Bool.noConfusion hfinished
  have hproc := hphase.processed
  have hplain := h.plaintextLen
  have hr : mbedtlsCcmUpdate (totalCipher e) sizeMod ctx x x.length =
      ccmUpdateLoop (totalCipher e) sizeMod x.length ctx x := by
    unfold mbedtlsCcmUpdate
    rw [if_neg (by rw [h.noError]; simp), if_neg (by rw [Nat.mod_eq_of_lt (by omega)]; omega),
      if_neg (by omega)]
  have hend : ∀ q, ctx.processed < q → q ≤ ctx.processed + x.length →
      (q % 16 = 0 ∨ q % sizeMod = ctx.plaintextLen ↔ q % 16 = 0 ∨ q = ctx.plaintextLen) := by
    intro q _ hq
    have hlt : q < sizeMod := by omega
    rw [Nat.mod_eq_of_lt hlt]
  have hloop := ccmUpdateLoop_cases (answers_totalCipher e) hrun.validNonce hsize x.length ctx
    ctx.processed x (Nat.le_refl _) hrun.mode hrun.q (Nat.mod_eq_of_lt (by omega)).symm
    (by rw [hphase.ctr, hproc]) (by omega) hend
  rw [hr]
  rcases hloop with ⟨hbad, _⟩ | ⟨hret, hctx, hout, hfeeds⟩
  · exact absurd (ccmUpdateLoop_total _ _ _) hbad
  rw [Nat.mod_eq_of_lt (by omega)] at hctx
  refine ⟨hret, by rw [hout, hproc], ?_⟩
  rw [hctx]
  refine ⟨h.noError, h.mode, h.addLen, h.plaintextLen, h.tagLen, h.finished, ?_⟩
  have hle' : ctx.processed + x.length ≤ ctx.plaintextLen := by omega
  refine ⟨tr ++ [((.update x x.length, totalCipher e), _)],
    hrun.absorbedInput hphase hle' hret hout hfeeds, ?_, ?_⟩
  · rw [acceptedAd_snoc]
    exact List.append_nil _
  · rw [acceptedInput_snoc]
    simp [CcmEvent.input, hret]

theorem CcmAt.finish (h : CcmAt e nonce mode a p t ad input ctx) (had : ad.length = a)
    (hinput : input.length = p) :
    (mbedtlsCcmFinish (totalCipher e) ctx t).ret = .ok ∧
      (mbedtlsCcmFinish (totalCipher e) ctx t).output =
        CounterCbcMac.tag e nonce ad (plaintextOf mode input (encrypt e nonce 0 input)) t ∧
      (mbedtlsCcmFinish (totalCipher e) ctx t).ctx.state = .clear ∧
      (mbedtlsCcmFinish (totalCipher e) ctx t).ctx.y = Block.zero := by
  obtain ⟨tr, hrun, rfl, rfl⟩ := h.running
  have hphase : CcmMessagePhase e tr ctx nonce := by
    apply hrun.phase.resolve_left
    intro hadPhase
    obtain ⟨hpos, hunfinished⟩ := hadPhase.unfinished
    rcases h.finished had with hzero | hfinished
    · omega
    · rw [hunfinished] at hfinished
      exact Bool.noConfusion hfinished
  have hproc := hphase.processed
  have hplain := h.plaintextLen
  have hy := hphase.mac_eq (by omega)
  have hctr := hrun.finishCounter hphase
  have hcrypt : mbedtlsCcmFinish (totalCipher e) ctx t =
      { ({ ctx with ctr := counterBlock nonce 0 }).returns .ok with
        ctx := mbedtlsCcmClearState { ctx with ctr := counterBlock nonce 0 }
        output := (Bytes.xor ctx.y.toList (e (counterBlock nonce 0)).toList).take t
        log := [{ counter := counterBlock nonce 0, offset := 0 }] } := by
    unfold mbedtlsCcmFinish
    rw [if_neg (by rw [h.noError]; simp), if_neg (by rw [hrun.started]; simp),
      if_neg (by rw [hrun.lengthsSet]; simp), if_neg, if_neg (by omega),
      if_neg (by rw [h.tagLen]; simp)]
    · simp only [hctr]
      rfl
    · rintro ⟨hpos, hunfinished⟩
      rcases h.finished had with hzero | hfinished
      · omega
      · rw [hunfinished] at hfinished
        exact Bool.noConfusion hfinished
  rw [hcrypt]
  refine ⟨rfl, ?_, rfl, rfl⟩
  rw [xor_toList, hy, h.tagLen, h.mode, hphase.output]
  rfl

end At

/-! ## Starting, and operations in chunks -/

/-- A context on which `mbedtls_ccm_starts` begins an operation: no lengths are set, and the
byte that receives the flags is 0. -/
structure CcmClean (ctx : MbedtlsCcmContext) : Prop where
  noError : ctx.state.error = false
  noLengths : ctx.state.lengthsSet = false
  noAd : ctx.state.authDataStarted = false ∧ ctx.state.authDataFinished = false
  flags : ctx.y 0 = 0

theorem CcmClean.init : CcmClean .init := ⟨rfl, rfl, ⟨rfl, rfl⟩, rfl⟩

/-- The state between `mbedtls_ccm_set_lengths` and the first data. -/
def CcmState.begun : CcmState :=
  { started := true, lengthsSet := true, authDataStarted := false
    authDataFinished := false, error := false }

def ccmBegun (e : Block 16 → Block 16) (mode : CcmMode) (nonce : ByteString) (a p t : Nat) :
    MbedtlsCcmContext :=
  { y := e (firstBlock nonce a p t), ctr := messageBlock nonce 0, plaintextLen := p, addLen := a
    tagLen := t, processed := 0, q := lengthSize nonce, mode := mode, state := .begun }

section Start

variable {mode : CcmMode} {a p t : Nat} {ctx : MbedtlsCcmContext}

theorem mbedtlsCcmStarts_clean (h : CcmClean ctx) (hn : ValidNonce nonce) :
    mbedtlsCcmStarts (totalCipher e) ctx mode nonce =
      { ctx with
          mode := mode
          q := lengthSize nonce
          ctr := messageBlock nonce 0
          y := ctx.y.store 1 nonce
          state := { ctx.state with started := true } }.returns .ok := by
  obtain ⟨hlo, hhi⟩ := hn
  have hq : 16 - 1 - nonce.length = lengthSize nonce := rfl
  unfold mbedtlsCcmStarts
  rw [if_neg (by omega)]
  simp only [hq, starts_counterBlock ⟨hlo, hhi⟩]
  exact ccmCalculateFirstBlockIfReady_notReady (.inr h.noLengths)

theorem store_one_zero {y : Block 16} (hy : y 0 = 0) : y.store 1 nonce 0 = 0 := by
  unfold Block.store
  rw [if_neg (by simp), hy]

theorem ccmCalculateFirstBlock_total (hn : ValidNonce nonce) (ht : ValidTagLen t)
    {y : Block 16} (hy : y 0 = 0) (hstate : ctx.state = .begun) (hq : ctx.q = lengthSize nonce)
    (hyctx : ctx.y = y.store 1 nonce) (htag : ctx.tagLen = t) :
    ccmCalculateFirstBlockIfReady (totalCipher e) ctx =
      if ctx.plaintextLen / 256 ^ ctx.q > 0 then
        { ctx with y := firstBlock nonce ctx.addLen ctx.plaintextLen t }.fails .badInput
      else
        { ctx with y := e (firstBlock nonce ctx.addLen ctx.plaintextLen t) }.returns .ok := by
  have htag0 : ctx.tagLen ≠ 0 := by
    have := ht.1
    omega
  unfold ccmCalculateFirstBlockIfReady
  rw [if_neg (by rw [hstate]; simp [CcmState.begun]), if_neg htag0]
  have hblock : (ctx.y.store 0 [ctx.y 0 ||| (if ctx.addLen > 0 then (0x40 : UInt8) else 0) |||
      UInt8.ofNat (((ctx.tagLen - 2) / 2) <<< 3) ||| UInt8.ofNat (ctx.q - 1)]).store
        (16 - ctx.q) (toBE ctx.q ctx.plaintextLen) =
          firstBlock nonce ctx.addLen ctx.plaintextLen t := by
    rw [hq, hyctx, store_one_zero hy, htag, flags_or hn ht, starts_firstBlock hn]
  simp only [hblock]
  rfl

theorem mbedtlsCcmSetLengths_started (h : CcmClean ctx) (hn : ValidNonce nonce)
    (ht : ValidTagLen t) (ha : a < 0xFF00) :
    mbedtlsCcmSetLengths (totalCipher e) (mbedtlsCcmStarts (totalCipher e) ctx mode nonce).ctx a p
        t =
      if p / 256 ^ lengthSize nonce > 0 then
        { ccmBegun e mode nonce a p t with y := firstBlock nonce a p t }.fails .badInput
      else
        (ccmBegun e mode nonce a p t).returns .ok := by
  obtain ⟨ht4, ht16, ht2⟩ := ht
  have hstate : { started := true, lengthsSet := true, authDataStarted := ctx.state.authDataStarted
                  authDataFinished := ctx.state.authDataFinished
                  error := ctx.state.error } = CcmState.begun := by
    rw [h.noError, h.noAd.1, h.noAd.2]
    rfl
  rw [mbedtlsCcmStarts_clean h hn]
  unfold mbedtlsCcmSetLengths
  rw [if_neg (by omega), if_neg (by omega),
    ccmCalculateFirstBlock_total hn ⟨ht4, ht16, ht2⟩ h.flags hstate rfl rfl rfl]
  simp only [MbedtlsCcmContext.returns, hstate]
  rfl

theorem mbedtlsCcmStarts_lengthsSet (hn : ValidNonce nonce) (ht : ValidTagLen t)
    (ha : a < 0xFF00) (hp : p < 256 ^ lengthSize nonce) :
    (mbedtlsCcmSetLengths (totalCipher e) .init a p t).ret = .ok ∧
      (mbedtlsCcmSetLengths (totalCipher e) .init a p t).output = [] ∧
      mbedtlsCcmStarts (totalCipher e) (mbedtlsCcmSetLengths (totalCipher e) .init a p t).ctx
        mode nonce = (ccmBegun e mode nonce a p t).returns .ok := by
  obtain ⟨hlo, hhi⟩ := hn
  obtain ⟨ht4, ht16, ht2⟩ := ht
  have hset : mbedtlsCcmSetLengths (totalCipher e) .init a p t =
      { MbedtlsCcmContext.init with
          plaintextLen := p
          addLen := a
          tagLen := t
          processed := 0
          state := { CcmState.clear with lengthsSet := true } }.returns .ok := by
    unfold mbedtlsCcmSetLengths
    rw [if_neg (by omega), if_neg (by omega)]
    exact ccmCalculateFirstBlockIfReady_notReady (.inl rfl)
  rw [hset]
  refine ⟨rfl, rfl, ?_⟩
  have hq : 16 - 1 - nonce.length = lengthSize nonce := rfl
  have hsmall : ¬ p / 256 ^ lengthSize nonce > 0 := by
    rw [Nat.div_eq_of_lt hp]
    exact Nat.lt_irrefl 0
  unfold mbedtlsCcmStarts
  rw [if_neg (by omega)]
  simp only [hq, starts_counterBlock ⟨hlo, hhi⟩]
  rw [ccmCalculateFirstBlock_total (y := Block.zero) ⟨hlo, hhi⟩ ⟨ht4, ht16, ht2⟩ rfl rfl rfl rfl
    rfl]
  refine (if_neg hsmall).trans ?_
  rfl

theorem CcmAt.begun (hn : ValidNonce nonce) (ht : ValidTagLen t)
    (hp : p < 256 ^ lengthSize nonce) (hmode : mode.isEncrypt = true ∨ mode.isDecrypt = true) :
    CcmAt e nonce mode a p t [] [] (ccmBegun e mode nonce a p t) := by
  let tr : List CcmEvent :=
    [((.starts mode nonce, totalCipher e), MbedtlsCcmContext.init.returns .ok),
      ((.setLengths a p t, totalCipher e), MbedtlsCcmContext.init.returns .ok)]
  have hadFirst : AdFirst tr := by
    intro pre ev post hsplit hne
    have hmem : ev ∈ tr := by
      rw [hsplit]
      simp
    simp only [tr, List.mem_cons, List.not_mem_nil, or_false] at hmem
    rcases hmem with rfl | rfl
    · exact absurd rfl hne
    · exact absurd rfl hne
  have hready :
      CcmReady tr { ccmBegun e mode nonce a p t with y := Block.zero.store 1 nonce } nonce :=
    { noAd := rfl, noInput := rfl, noOutput := rfl, noLog := rfl, adFirst := hadFirst
      adState := ⟨rfl, rfl⟩, started := rfl, lengthsSet := rfl, validNonce := hn, mode := hmode
      q := rfl, ctr := rfl, y := rfl, processed := rfl, tagLen := ht }
  refine ⟨rfl, rfl, rfl, rfl, rfl, fun ha => .inl ha.symm, tr, ?_, rfl, rfl⟩
  refine ⟨rfl, rfl, ⟨totalCipher e, MbedtlsCcmContext.init.returns .ok, ?_, rfl⟩, hn, hmode, rfl,
    ⟨totalCipher e, MbedtlsCcmContext.init.returns .ok, ?_, rfl⟩, ht, hp, hadFirst, .nil,
    hready.phase⟩
  · exact List.mem_cons_self
  · exact List.mem_cons_of_mem _ List.mem_cons_self

end Start

/-! ### Sequences of calls -/

section Chunks

variable {cipher : BlockCipher} {mode : CcmMode} {a p t : Nat} {ad input : ByteString}
  {ctx ctx' : MbedtlsCcmContext} {output : ByteString}

theorem ccmCalls_cons {call : CcmCall} {calls : List CcmCall}
    (hret : (ccmCall cipher sizeMod ctx call).ret = .ok)
    (hrest : ccmCalls cipher sizeMod (ccmCall cipher sizeMod ctx call).ctx calls =
      some (output, ctx')) :
    ccmCalls cipher sizeMod ctx (call :: calls) =
      some ((ccmCall cipher sizeMod ctx call).output ++ output, ctx') := by
  unfold ccmCalls
  rw [if_neg (by rw [hret]; simp), hrest]
  rfl

theorem ccmCalls_append {xs ys : List CcmCall} {ctx'' : MbedtlsCcmContext} {more : ByteString}
    (hx : ccmCalls cipher sizeMod ctx xs = some (output, ctx'))
    (hy : ccmCalls cipher sizeMod ctx' ys = some (more, ctx'')) :
    ccmCalls cipher sizeMod ctx (xs ++ ys) = some (output ++ more, ctx'') := by
  induction xs generalizing ctx output with
  | nil =>
    cases hx
    exact hy
  | cons call xs ih =>
    unfold ccmCalls at hx
    simp only at hx
    split at hx
    · cases hx
    next hret =>
    obtain ⟨rest, hrest, heq⟩ := Option.map_eq_some_iff.mp hx
    cases heq
    rw [List.cons_append, ccmCalls_cons (Classical.not_not.mp hret) (ih hrest), List.append_assoc]

theorem CcmAt.updateAds (ha : a < sizeMod) (ads : List ByteString) (ad : ByteString)
    (ctx : MbedtlsCcmContext) (h : CcmAt e nonce mode a p t ad [] ctx)
    (hle : (ad ++ ads.flatten).length ≤ a) :
    ∃ ctx', ccmCalls (totalCipher e) sizeMod ctx (ads.map .updateAd) = some ([], ctx') ∧
      CcmAt e nonce mode a p t (ad ++ ads.flatten) [] ctx' := by
  induction ads generalizing ad ctx with
  | nil =>
    rw [List.flatten_nil, List.append_nil]
    exact ⟨ctx, rfl, h⟩
  | cons add ads ih =>
    rw [List.flatten_cons, ← List.append_assoc] at hle ⊢
    have hfirst : (ad ++ add).length ≤ a := by
      rw [List.length_append] at hle
      omega
    obtain ⟨hret, hout, hnext⟩ := h.updateAd hfirst ha
    have hcall : (ccmCall (totalCipher e) sizeMod ctx (.updateAd add)).ret = .ok := hret
    obtain ⟨ctx', hcalls, hat⟩ := ih _ _ hnext hle
    refine ⟨ctx', ?_, hat⟩
    rw [List.map_cons, ccmCalls_cons hcall hcalls]
    show some ((mbedtlsCcmUpdateAd (totalCipher e) sizeMod ctx add).output ++ [], ctx') = _
    rw [hout]
    rfl

theorem CcmAt.updates (hsize : 16 ∣ sizeMod) (had : ad.length = a) (hp : p < sizeMod)
    (inputs : List ByteString) (input : ByteString) (ctx : MbedtlsCcmContext)
    (h : CcmAt e nonce mode a p t ad input ctx) (hle : (input ++ inputs.flatten).length ≤ p) :
    ∃ ctx', ccmCalls (totalCipher e) sizeMod ctx (inputs.map fun x => .update x x.length) =
        some (encrypt e nonce input.length inputs.flatten, ctx') ∧
      CcmAt e nonce mode a p t ad (input ++ inputs.flatten) ctx' := by
  induction inputs generalizing input ctx with
  | nil =>
    rw [List.flatten_nil, List.append_nil]
    exact ⟨ctx, rfl, h⟩
  | cons x inputs ih =>
    rw [List.flatten_cons, ← List.append_assoc] at hle ⊢
    have hfirst : (input ++ x).length ≤ p := by
      rw [List.length_append] at hle
      omega
    obtain ⟨hret, hout, hnext⟩ := h.update hsize had hfirst hp
    have hcall : (ccmCall (totalCipher e) sizeMod ctx (.update x x.length)).ret = .ok := hret
    obtain ⟨ctx', hcalls, hat⟩ := ih _ _ hnext hle
    refine ⟨ctx', ?_, hat⟩
    rw [List.map_cons, ccmCalls_cons hcall hcalls, encrypt_append, List.length_append]
    show some ((mbedtlsCcmUpdate (totalCipher e) sizeMod ctx x x.length).output ++ _, ctx') = _
    rw [hout]

variable {ads inputs : List ByteString}

theorem CcmAt.chunks (hsize : 16 ∣ sizeMod) (hn : ValidNonce nonce) (ht : ValidTagLen t)
    (hmode : mode.isEncrypt = true ∨ mode.isDecrypt = true)
    (ha : ads.flatten.length < sizeMod) (hfits : inputs.flatten.length < 256 ^ lengthSize nonce)
    (hp : inputs.flatten.length < sizeMod) :
    ∃ ctx, ccmCalls (totalCipher e) sizeMod
        (ccmBegun e mode nonce ads.flatten.length inputs.flatten.length t)
        (ccmChunkCalls ads inputs) = some (encrypt e nonce 0 inputs.flatten, ctx) ∧
      CcmAt e nonce mode ads.flatten.length inputs.flatten.length t ads.flatten inputs.flatten
        ctx := by
  have hbegun : CcmAt e nonce mode ads.flatten.length inputs.flatten.length t [] [] _ :=
    CcmAt.begun hn ht hfits hmode
  obtain ⟨ctx₁, hads, hat₁⟩ := hbegun.updateAds ha ads [] _ (by simp)
  obtain ⟨ctx₂, hinputs, hat₂⟩ := hat₁.updates hsize rfl hp inputs [] ctx₁ (by simp)
  exact ⟨ctx₂, ccmCalls_append hads hinputs, hat₂⟩

theorem ccmStartCalls_begun {startsFirst : Bool} (hn : ValidNonce nonce) (ht : ValidTagLen t)
    (ha : a < 0xFF00) (hp : p < 256 ^ lengthSize nonce) :
    ccmCalls (totalCipher e) sizeMod .init (ccmStartCalls startsFirst mode nonce a p t) =
      some ([], ccmBegun e mode nonce a p t) := by
  have hsmall : ¬ p / 256 ^ lengthSize nonce > 0 := by
    rw [Nat.div_eq_of_lt hp]
    exact Nat.lt_irrefl 0
  cases startsFirst with
  | true =>
    have hstarts := @mbedtlsCcmStarts_clean e _ mode _ CcmClean.init hn
    have hset := @mbedtlsCcmSetLengths_started e _ mode _ p _ _ CcmClean.init hn ht ha
    rw [if_neg hsmall] at hset
    have hlast : ccmCalls (totalCipher e) sizeMod
        (mbedtlsCcmStarts (totalCipher e) .init mode nonce).ctx [.setLengths a p t] =
          some ([], ccmBegun e mode nonce a p t) := by
      simp only [ccmCalls, ccmCall, hset]
      rfl
    refine (ccmCalls_cons (by rw [ccmCall, hstarts]; rfl) hlast).trans ?_
    rw [ccmCall, hstarts]
    rfl
  | false =>
    obtain ⟨hret, hout, hstarts⟩ := @mbedtlsCcmStarts_lengthsSet e _ mode _ _ _ hn ht ha hp
    have hlast : ccmCalls (totalCipher e) sizeMod
        (mbedtlsCcmSetLengths (totalCipher e) .init a p t).ctx [.starts mode nonce] =
          some ([], ccmBegun e mode nonce a p t) := by
      simp only [ccmCalls, ccmCall, hstarts]
      rfl
    have hcall : (ccmCall (totalCipher e) sizeMod .init (.setLengths a p t)).ret = .ok := hret
    refine (ccmCalls_cons hcall hlast).trans ?_
    rw [ccmCall, hout]
    rfl

theorem ccmMultipart_eq (hsize : 16 ∣ sizeMod) (hn : ValidNonce nonce) (ht : ValidTagLen t)
    (hmode : mode.isEncrypt = true ∨ mode.isDecrypt = true) {startsFirst : Bool}
    (had : ads.flatten.length < 0xFF00) (ha : ads.flatten.length < sizeMod)
    (hfits : inputs.flatten.length < 256 ^ lengthSize nonce)
    (hp : inputs.flatten.length < sizeMod) :
    ccmMultipart (totalCipher e) sizeMod startsFirst mode nonce ads inputs t =
      some (encrypt e nonce 0 inputs.flatten,
        CounterCbcMac.tag e nonce ads.flatten
          (plaintextOf mode inputs.flatten (encrypt e nonce 0 inputs.flatten)) t) := by
  obtain ⟨ctx, hcalls, hat⟩ := CcmAt.chunks (e := e) (t := t) hsize hn ht hmode ha hfits hp
  obtain ⟨hret, hout, _⟩ := hat.finish rfl rfl
  have hall := ccmCalls_append (@ccmStartCalls_begun _ _ _ _ _ _ _ startsFirst hn ht had hfits)
    hcalls
  unfold ccmMultipart
  rw [hall]
  simp only
  rw [if_neg (by rw [hret]; simp), hout]
  rfl

end Chunks

/-! ## The one-shot calls -/

section OneShotTotal

variable {mode : CcmMode} {t : Nat} {ad input : ByteString} {ctx : MbedtlsCcmContext}

theorem ccmAuthCrypt_ok {cipher : BlockCipher} {begun : MbedtlsCcmContext}
    (hstarts : (mbedtlsCcmStarts cipher ctx mode nonce).ret = .ok)
    (hset : mbedtlsCcmSetLengths cipher (mbedtlsCcmStarts cipher ctx mode nonce).ctx ad.length
      input.length t = begun.returns .ok)
    (had : (mbedtlsCcmUpdateAd cipher sizeMod begun ad).ret = .ok)
    (hupdate : (mbedtlsCcmUpdate cipher sizeMod (mbedtlsCcmUpdateAd cipher sizeMod begun ad).ctx
      input input.length).ret = .ok)
    (hfinish : (mbedtlsCcmFinish cipher (mbedtlsCcmUpdate cipher sizeMod
      (mbedtlsCcmUpdateAd cipher sizeMod begun ad).ctx input input.length).ctx t).ret = .ok) :
    ccmAuthCrypt cipher sizeMod ctx mode nonce ad input t =
      let update := mbedtlsCcmUpdate cipher sizeMod
        (mbedtlsCcmUpdateAd cipher sizeMod begun ad).ctx input input.length
      let finish := mbedtlsCcmFinish cipher update.ctx t
      ⟨.ret .ok, finish.ctx, update.output, finish.output⟩ := by
  have hbegun : (begun.returns .ok).ctx = begun := rfl
  have hret : (begun.returns .ok).ret = .ok := rfl
  unfold ccmAuthCrypt
  simp only [hstarts, hset, hbegun, hret, had, hupdate, hfinish, ne_eq, not_true_eq_false, if_false]

theorem ccmAuthCrypt_clean (hsize : 16 ∣ sizeMod) (h : CcmClean ctx) (hn : ValidNonce nonce)
    (ht : ValidTagLen t) (hmode : mode.isEncrypt = true ∨ mode.isDecrypt = true)
    (had : ad.length < 0xFF00) (ha : ad.length < sizeMod)
    (hfits : input.length < 256 ^ lengthSize nonce) (hp : input.length < sizeMod) :
    (ccmAuthCrypt (totalCipher e) sizeMod ctx mode nonce ad input t).ret = .ret .ok ∧
      (ccmAuthCrypt (totalCipher e) sizeMod ctx mode nonce ad input t).output =
        encrypt e nonce 0 input ∧
      (ccmAuthCrypt (totalCipher e) sizeMod ctx mode nonce ad input t).tag =
        CounterCbcMac.tag e nonce ad (plaintextOf mode input (encrypt e nonce 0 input)) t ∧
      CcmClean (ccmAuthCrypt (totalCipher e) sizeMod ctx mode nonce ad input t).ctx := by
  have hstarts := @mbedtlsCcmStarts_clean e _ mode _ h hn
  have hset := @mbedtlsCcmSetLengths_started e _ mode _ input.length _ _ h hn ht had
  have hsmall : ¬ input.length / 256 ^ lengthSize nonce > 0 := by
    rw [Nat.div_eq_of_lt hfits]
    exact Nat.lt_irrefl 0
  rw [if_neg hsmall] at hset
  have hat₀ : CcmAt e nonce mode ad.length input.length t [] [] _ := CcmAt.begun hn ht hfits hmode
  have hfit : (([] : ByteString) ++ ad).length ≤ ad.length := by simp
  obtain ⟨hret₁, _, hat₁⟩ := hat₀.updateAd hfit ha
  obtain ⟨hret₂, hout₂, hat₂⟩ := hat₁.update (x := input) hsize rfl (by simp) hp
  obtain ⟨hret₃, hout₃, hstate, hy⟩ := hat₂.finish rfl rfl
  rw [ccmAuthCrypt_ok (by rw [hstarts]; rfl) hset hret₁ hret₂ hret₃]
  refine ⟨rfl, hout₂, hout₃, ?_⟩
  exact ⟨by rw [hstate]; rfl, by rw [hstate]; rfl, by rw [hstate]; exact ⟨rfl, rfl⟩,
    by rw [hy]; rfl⟩

theorem encrypt_encrypt (pos : Nat) (x : ByteString) :
    encrypt e nonce pos (encrypt e nonce pos x) = x := by
  have hxor : ∀ x ks : ByteString, x.length ≤ ks.length → Bytes.xor (Bytes.xor x ks) ks = x := by
    intro x
    induction x with
    | nil => intro ks _; rfl
    | cons b x ih =>
      intro ks hle
      cases ks with
      | nil => exact absurd hle (by simp)
      | cons k ks =>
        show (b ^^^ k ^^^ k) :: Bytes.xor (Bytes.xor x ks) ks = b :: x
        rw [UInt8.xor_assoc, UInt8.xor_self, UInt8.xor_zero, ih ks (by simpa using hle)]
  conv_lhs => rw [CounterCbcMac.encrypt, length_encrypt]
  exact hxor x _ (by simp)

theorem ccmAuthDecrypt_clean (hsize : 16 ∣ sizeMod) (h : CcmClean ctx) (hn : ValidNonce nonce)
    (ht : ValidTagLen t) (hmode : mode.isEncrypt = false ∧ mode.isDecrypt = true)
    (had : ad.length < 0xFF00) (ha : ad.length < sizeMod)
    (hfits : input.length < 256 ^ lengthSize nonce) (hp : input.length < sizeMod)
    (given : ByteString) :
    ccmAuthDecrypt (totalCipher e) sizeMod ctx mode nonce ad input given t =
      if given.take t = CounterCbcMac.tag e nonce ad (encrypt e nonce 0 input) t then
        ⟨.ret .ok, (ccmAuthCrypt (totalCipher e) sizeMod ctx mode nonce ad input t).ctx,
          encrypt e nonce 0 input, []⟩
      else
        ⟨.authFailed, (ccmAuthCrypt (totalCipher e) sizeMod ctx mode nonce ad input t).ctx,
          List.replicate input.length 0, []⟩ := by
  obtain ⟨hret, hout, htag, _⟩ :=
    ccmAuthCrypt_clean (e := e) hsize h hn ht (.inr hmode.2) had ha hfits hp
  rw [plaintextOf, if_neg (by rw [hmode.1]; simp)] at htag
  unfold ccmAuthDecrypt
  rw [if_neg (by rw [hret]; simp), htag]
  by_cases heq : given.take t = CounterCbcMac.tag e nonce ad (encrypt e nonce 0 input) t
  · rw [if_neg (not_not.mpr heq), if_pos heq, hret, hout]
  · rw [if_pos heq, if_neg heq]

end OneShotTotal

/-- Chunks, one-shot encryption and decryption agree with CCM of the specification. -/
theorem ccm_chunks_and_one_shot (e : Block 16 → Block 16) (sizeMod : Nat) (hsize : 16 ∣ sizeMod)
    (nonce : ByteString) (hn : 7 ≤ nonce.length ∧ nonce.length ≤ 13) (t : Nat)
    (ht : 4 ≤ t ∧ t ≤ 16 ∧ t % 2 = 0) (ad message : ByteString) (had : ad.length < 0xFF00)
    (hfits : message.length < 256 ^ (15 - nonce.length))
    (hlengths : ad.length < sizeMod ∧ message.length < sizeMod) :
    let ciphertext := encrypt e nonce 0 message
    let tag := CounterCbcMac.tag e nonce ad message t
    let encrypted := mbedtlsCcmEncryptAndTag (totalCipher e) sizeMod .init nonce ad message t
    (encrypted.ret = .ret .ok ∧ encrypted.output = ciphertext ∧ encrypted.tag = tag) ∧
    (∀ startsFirst (ads chunks : List ByteString), ads.flatten = ad →
      (chunks.flatten = message →
        ccmMultipart (totalCipher e) sizeMod startsFirst .encrypt nonce ads chunks t =
          some (ciphertext, tag)) ∧
      (chunks.flatten = ciphertext →
        ccmMultipart (totalCipher e) sizeMod startsFirst .decrypt nonce ads chunks t =
          some (message, tag))) ∧
    (∀ given : ByteString, t ≤ given.length →
      let r := mbedtlsCcmAuthDecrypt (totalCipher e) sizeMod .init nonce ad ciphertext given t
      (r.ret = .ret .ok ↔ given.take t = tag) ∧
        (r.ret = .ret .ok → r.output = message) ∧
        (r.ret ≠ .ret .ok → r.output = List.replicate ciphertext.length 0)) ∧
    ∀ input given : ByteString, input.length = message.length → t ≤ given.length →
      let r := mbedtlsCcmAuthDecrypt (totalCipher e) sizeMod .init nonce ad input given t
      (r.ret = .ret .ok ↔
        given.take t = CounterCbcMac.tag e nonce ad (encrypt e nonce 0 input) t) ∧
        (r.ret ≠ .ret .ok → r.output = List.replicate input.length 0) := by
  obtain ⟨ha, hp⟩ := hlengths
  have hplain : ∀ x y, plaintextOf .encrypt x y = x := fun _ _ => rfl
  have hcipher : ∀ x y, plaintextOf .decrypt x y = y := fun _ _ => rfl
  refine ⟨?_, ?_, ?_, ?_⟩
  · obtain ⟨hret, hout, htag, _⟩ :=
      @ccmAuthCrypt_clean e _ _ .encrypt _ _ _ _ hsize .init hn ht (.inl rfl) had ha hfits hp
    rw [hplain] at htag
    exact ⟨hret, hout, htag⟩
  · intro startsFirst ads chunks hads
    subst hads
    constructor
    · rintro rfl
      rw [ccmMultipart_eq hsize hn ht (.inl rfl) had ha hfits hp, hplain]
    intro hchunks
    have hlen : chunks.flatten.length = message.length := by
      rw [hchunks, length_encrypt]
    rw [← hlen] at hfits hp
    rw [ccmMultipart_eq hsize hn ht (.inr rfl) had ha hfits hp, hcipher, hchunks, encrypt_encrypt]
  · intro given _
    have hlen := @length_encrypt e nonce 0 message
    rw [← hlen] at hfits hp
    simp only [mbedtlsCcmAuthDecrypt]
    rw [ccmAuthDecrypt_clean hsize .init hn ht ⟨rfl, rfl⟩ had ha hfits hp given, encrypt_encrypt]
    split
    · next heq => exact ⟨⟨fun _ => heq, fun _ => rfl⟩, fun _ => rfl, fun hne => absurd rfl hne⟩
    · next hne =>
      exact ⟨⟨fun h => CcmAuthRet.noConfusion h, fun h => absurd h hne⟩,
        fun h => CcmAuthRet.noConfusion h, fun _ => rfl⟩
  · intro input given hlen _
    rw [← hlen] at hfits hp
    simp only [mbedtlsCcmAuthDecrypt]
    rw [ccmAuthDecrypt_clean hsize .init hn ht ⟨rfl, rfl⟩ had ha hfits hp given]
    split
    · next heq => exact ⟨⟨fun _ => heq, fun _ => rfl⟩, fun hne => absurd rfl hne⟩
    · next hne =>
      exact ⟨⟨fun h => CcmAuthRet.noConfusion h, fun h => absurd h hne⟩, fun _ => rfl⟩

theorem ccm_chunks_and_one_shot_witness :
    ccmMultipart (totalCipher nextBytes) (2 ^ 64) false .encrypt (List.replicate 13 0)
        [[], [1], []] [[2], [], [3, 4]] 4 =
      some (encrypt nextBytes (List.replicate 13 0) 0 [2, 3, 4],
        CounterCbcMac.tag nextBytes (List.replicate 13 0) [1] [2, 3, 4] 4) := by
  obtain ⟨_, hchunks, _⟩ := ccm_chunks_and_one_shot nextBytes (2 ^ 64) (by decide)
    (List.replicate 13 0) (by decide) 4 (by decide) [1] [2, 3, 4] (by decide) (by decide)
    (by decide)
  exact (hchunks false [[], [1], []] [[2], [], [3, 4]] rfl).1 rfl

/-! ## Histories of one-shot calls -/

inductive CcmOneShotCall where
  | encryptAndTag (iv add input : ByteString) (tagLen : Nat)
  | starEncryptAndTag (iv add input : ByteString) (tagLen : Nat)
  | authDecrypt (iv add input tag : ByteString) (tagLen : Nat)
  | starAuthDecrypt (iv add input tag : ByteString) (tagLen : Nat)

namespace CcmOneShotCall

def run (cipher : BlockCipher) (sizeMod : Nat) (ctx : MbedtlsCcmContext) :
    CcmOneShotCall → CcmOneShot
  | encryptAndTag iv add input tagLen =>
    mbedtlsCcmEncryptAndTag cipher sizeMod ctx iv add input tagLen
  | starEncryptAndTag iv add input tagLen =>
    mbedtlsCcmStarEncryptAndTag cipher sizeMod ctx iv add input tagLen
  | authDecrypt iv add input tag tagLen =>
    mbedtlsCcmAuthDecrypt cipher sizeMod ctx iv add input tag tagLen
  | starAuthDecrypt iv add input tag tagLen =>
    mbedtlsCcmStarAuthDecrypt cipher sizeMod ctx iv add input tag tagLen

def mode : CcmOneShotCall → CcmMode
  | encryptAndTag .. => .encrypt
  | starEncryptAndTag .. => .starEncrypt
  | authDecrypt .. => .decrypt
  | starAuthDecrypt .. => .starDecrypt

def iv : CcmOneShotCall → ByteString
  | encryptAndTag iv _ _ _ => iv
  | starEncryptAndTag iv _ _ _ => iv
  | authDecrypt iv _ _ _ _ => iv
  | starAuthDecrypt iv _ _ _ _ => iv

def add : CcmOneShotCall → ByteString
  | encryptAndTag _ add _ _ => add
  | starEncryptAndTag _ add _ _ => add
  | authDecrypt _ add _ _ _ => add
  | starAuthDecrypt _ add _ _ _ => add

def input : CcmOneShotCall → ByteString
  | encryptAndTag _ _ input _ => input
  | starEncryptAndTag _ _ input _ => input
  | authDecrypt _ _ input _ _ => input
  | starAuthDecrypt _ _ input _ _ => input

def tagLen : CcmOneShotCall → Nat
  | encryptAndTag _ _ _ tagLen => tagLen
  | starEncryptAndTag _ _ _ tagLen => tagLen
  | authDecrypt _ _ _ _ tagLen => tagLen
  | starAuthDecrypt _ _ _ _ tagLen => tagLen

/-- The lengths of the buffers are values of `size_t`. -/
def Sized (sizeMod : Nat) (call : CcmOneShotCall) : Prop :=
  call.add.length < sizeMod ∧ call.input.length < sizeMod

def Admitted (call : CcmOneShotCall) : Prop :=
  ValidNonce call.iv ∧ call.tagLen ≠ 2 ∧ call.tagLen ≤ 16 ∧ call.tagLen % 2 = 0 ∧
    call.add.length < 0xFF00

def Poisons (call : CcmOneShotCall) : Prop :=
  call.Admitted ∧ ((call.tagLen = 0 ∧ call.mode.isStar = false) ∨
    (call.tagLen ≠ 0 ∧ 256 ^ lengthSize call.iv ≤ call.input.length))

def crypt (cipher : BlockCipher) (sizeMod : Nat) (ctx : MbedtlsCcmContext)
    (call : CcmOneShotCall) : CcmOneShot :=
  ccmAuthCrypt cipher sizeMod ctx call.mode call.iv call.add call.input call.tagLen

end CcmOneShotCall

def CcmOneShot.seen (r : CcmOneShot) : CcmAuthRet × ByteString × ByteString :=
  (r.ret, r.output, r.tag)

def ccmAfter (cipher : BlockCipher) (sizeMod : Nat) (ctx : MbedtlsCcmContext)
    (calls : List CcmOneShotCall) : MbedtlsCcmContext :=
  calls.foldl (fun ctx call => (call.run cipher sizeMod ctx).ctx) ctx

section Histories

variable {call : CcmOneShotCall} {ctx : MbedtlsCcmContext}

theorem CcmOneShotCall.mode_cases (call : CcmOneShotCall) :
    call.mode.isEncrypt = true ∨ call.mode.isDecrypt = true := by
  cases call
  · exact .inl rfl
  · exact .inl rfl
  · exact .inr rfl
  · exact .inr rfl

theorem CcmOneShotCall.run_of_crypt {cipher : BlockCipher} {ctx ctx' : MbedtlsCcmContext}
    (h : (call.crypt cipher sizeMod ctx).seen = (call.crypt cipher sizeMod ctx').seen) :
    (call.run cipher sizeMod ctx).seen = (call.run cipher sizeMod ctx').seen := by
  have hdecrypt : ∀ (mode : CcmMode) (iv add input tag : ByteString) (tagLen : Nat),
      (ccmAuthCrypt cipher sizeMod ctx mode iv add input tagLen).seen =
        (ccmAuthCrypt cipher sizeMod ctx' mode iv add input tagLen).seen →
      (ccmAuthDecrypt cipher sizeMod ctx mode iv add input tag tagLen).seen =
        (ccmAuthDecrypt cipher sizeMod ctx' mode iv add input tag tagLen).seen := by
    intro mode iv add input tag tagLen heq
    obtain ⟨hret, hrest⟩ := Prod.mk.inj heq
    obtain ⟨hout, htag⟩ := Prod.mk.inj hrest
    unfold ccmAuthDecrypt
    simp only [hret, htag]
    split
    · exact congrArg (fun out => (_, out, [])) hout
    · split
      · rfl
      · exact congrArg (fun out => (_, out, [])) hout
  cases call with
  | encryptAndTag iv add input tagLen => exact h
  | starEncryptAndTag iv add input tagLen => exact h
  | authDecrypt iv add input tag tagLen => exact hdecrypt _ _ _ _ _ _ h
  | starAuthDecrypt iv add input tag tagLen => exact hdecrypt _ _ _ _ _ _ h

theorem CcmOneShotCall.run_ctx {cipher : BlockCipher} :
    (call.run cipher sizeMod ctx).ctx = (call.crypt cipher sizeMod ctx).ctx := by
  have hdecrypt : ∀ (mode : CcmMode) (iv add input tag : ByteString) (tagLen : Nat),
      (ccmAuthDecrypt cipher sizeMod ctx mode iv add input tag tagLen).ctx =
        (ccmAuthCrypt cipher sizeMod ctx mode iv add input tagLen).ctx := by
    intro mode iv add input tag tagLen
    unfold ccmAuthDecrypt
    simp only
    split
    · rfl
    · split <;> rfl
  cases call with
  | encryptAndTag iv add input tagLen => rfl
  | starEncryptAndTag iv add input tagLen => rfl
  | authDecrypt iv add input tag tagLen => exact hdecrypt _ _ _ _ _ _
  | starAuthDecrypt iv add input tag tagLen => exact hdecrypt _ _ _ _ _ _

/-! ### The ways a call on a clean context ends -/

theorem CcmOneShotCall.crypt_refused (h : CcmClean ctx) (hbad : ¬ call.Admitted) :
    (call.crypt (totalCipher e) sizeMod ctx).seen = (.ret .badInput, [], []) ∧
      CcmClean (call.crypt (totalCipher e) sizeMod ctx).ctx := by
  by_cases hn : ValidNonce call.iv
  · have hstarts := @mbedtlsCcmStarts_clean e _ call.mode _ h hn
    generalize hstarted : mbedtlsCcmStarts (totalCipher e) ctx call.mode call.iv = started
    rw [hstarted] at hstarts
    have hset : mbedtlsCcmSetLengths (totalCipher e) started.ctx call.add.length call.input.length
        call.tagLen = started.ctx.returns .badInput := by
      unfold mbedtlsCcmSetLengths
      split
      · rfl
      next htag =>
      rw [if_pos]
      by_contra had
      apply hbad
      exact ⟨hn, by omega, by omega, by omega, by omega⟩
    have hclean : CcmClean started.ctx := by
      rw [hstarts]
      have hflags : ctx.y.store 1 call.iv 0 = 0 := store_one_zero h.flags
      exact ⟨h.noError, h.noLengths, h.noAd, hflags⟩
    have hok : started.ret = .ok := by
      rw [hstarts]
      rfl
    have hret : (started.ctx.returns .badInput).ret = .badInput := rfl
    unfold CcmOneShotCall.crypt ccmAuthCrypt
    simp only [hstarted, hok, hset, hret, ne_eq, not_true_eq_false, if_false, reduceCtorEq,
      not_false_eq_true, if_true]
    exact ⟨rfl, hclean⟩
  · have hstarts : mbedtlsCcmStarts (totalCipher e) ctx call.mode call.iv =
        ctx.returns .badInput := by
      unfold mbedtlsCcmStarts
      rw [if_pos]
      by_contra hlen
      apply hn
      exact ⟨by omega, by omega⟩
    have hret : (ctx.returns .badInput).ret = .badInput := rfl
    unfold CcmOneShotCall.crypt ccmAuthCrypt
    simp only [hstarts, hret, ne_eq, reduceCtorEq, not_false_eq_true, if_true]
    exact ⟨rfl, h⟩

theorem CcmOneShotCall.Admitted.validTagLen (h : call.Admitted) (hne : call.tagLen ≠ 0) :
    ValidTagLen call.tagLen := by
  obtain ⟨_, h2, h16, heven, _⟩ := h
  exact ⟨by omega, h16, heven⟩

theorem CcmOneShotCall.crypt_poisons (h : CcmClean ctx) (hbad : call.Poisons) :
    (call.crypt (totalCipher e) sizeMod ctx).seen = (.ret .badInput, [], []) ∧
      (call.crypt (totalCipher e) sizeMod ctx).ctx.state.error = true := by
  obtain ⟨hadmitted, hbad⟩ := hbad
  have hn := hadmitted.1
  have hstarts := @mbedtlsCcmStarts_clean e _ call.mode _ h hn
  have hok : (mbedtlsCcmStarts (totalCipher e) ctx call.mode call.iv).ret = .ok := by
    rw [hstarts]
    rfl
  have hset : ∃ failed : MbedtlsCcmContext, mbedtlsCcmSetLengths (totalCipher e)
      (mbedtlsCcmStarts (totalCipher e) ctx call.mode call.iv).ctx call.add.length
        call.input.length call.tagLen = failed.fails .badInput := by
    rcases hbad with ⟨hzero, hstar⟩ | ⟨hne, hlong⟩
    · rw [hstarts]
      unfold mbedtlsCcmSetLengths ccmCalculateFirstBlockIfReady
      obtain ⟨_, h2, h16, heven, had⟩ := hadmitted
      rw [if_neg (by omega), if_neg (by omega), if_neg (by simp [MbedtlsCcmContext.returns]),
        if_pos hzero, if_neg]
      · exact ⟨_, rfl⟩
      · simp only [MbedtlsCcmContext.returns, hstar]
        exact Bool.noConfusion
    · have hpos : call.input.length / 256 ^ lengthSize call.iv > 0 :=
        Nat.div_pos hlong (Nat.pow_pos (by omega))
      rw [mbedtlsCcmSetLengths_started h hn (hadmitted.validTagLen hne) hadmitted.2.2.2.2,
        if_pos hpos]
      exact ⟨_, rfl⟩
  obtain ⟨failed, hset⟩ := hset
  have hret : (failed.fails .badInput).ret = .badInput := rfl
  unfold CcmOneShotCall.crypt ccmAuthCrypt
  simp only [hok, hset, hret, ne_eq, not_true_eq_false, if_false, reduceCtorEq,
    not_false_eq_true, if_true]
  exact ⟨rfl, rfl⟩

/-- The context of a CCM* operation without tag after the calls that start it; `y` is left from
`mbedtls_ccm_starts`. -/
def ccmBegunNoTag (y : Block 16) (mode : CcmMode) (nonce : ByteString) (a : Nat) :
    MbedtlsCcmContext :=
  { y := y, ctr := messageBlock nonce 0, plaintextLen := 0, addLen := a, tagLen := 0
    processed := 0, q := lengthSize nonce, mode := mode, state := .begun }

theorem mbedtlsCcmUpdateAd_noTag {y : Block 16} {mode : CcmMode} {add : ByteString}
    (ha : add.length < sizeMod) :
    ∃ y' started finished, (add.length = 0 ∨ finished = true) ∧
      mbedtlsCcmUpdateAd (totalCipher e) sizeMod (ccmBegunNoTag y mode nonce add.length) add =
        { ccmBegunNoTag y' mode nonce add.length with
            state := { CcmState.begun with authDataStarted := started
                                           authDataFinished := finished } }.returns .ok := by
  generalize hbegun : ccmBegunNoTag y mode nonce add.length = begun
  have hstate : begun.state = .begun := by rw [← hbegun]; rfl
  have hprocessed : begun.processed = 0 := by rw [← hbegun]; rfl
  have haddLen : begun.addLen = add.length := by rw [← hbegun]; rfl
  by_cases hne : add = []
  · refine ⟨y, false, false, .inl (by rw [hne, List.length_nil]), ?_⟩
    unfold mbedtlsCcmUpdateAd
    rw [if_neg (by rw [hstate]; simp [CcmState.begun]), if_pos (by rw [hne, List.length_nil]),
      ← hbegun]
    rfl
  · have hpos : 0 < add.length := List.length_pos_iff.mpr hne
    have hloop : ∀ ctx, (ccmUpdateAdLoop (totalCipher e) sizeMod add.length ctx add).ret = .ok :=
      fun ctx => ccmUpdateAdLoop_total add.length ctx add
    have hret : (mbedtlsCcmUpdateAd (totalCipher e) sizeMod begun add).ret = .ok := by
      unfold mbedtlsCcmUpdateAd
      rw [if_neg (by rw [hstate]; simp [CcmState.begun]), if_neg (by omega),
        if_neg (by rw [hstate]; simp [CcmState.begun]), if_neg (by omega),
        if_neg (by rw [hstate]; simp [CcmState.begun])]
      rw [if_neg (by rw [hloop]; simp)]
      split
      · split <;> exact hloop _
      · split <;> exact hloop _
    rcases mbedtlsCcmUpdateAd_cases (answers_totalCipher e) (fun _ _ _ => hprocessed)
      (.inr (show begun.processed + add.length < sizeMod by omega)) with
      ⟨hbad, _⟩ | ⟨hnil, _⟩ | ⟨_, _, _, _, hr⟩
    · exact absurd hret hbad
    · exact absurd hnil hne
    · have hall : begun.processed + add.length = begun.addLen := by omega
      refine ⟨(adAbsorbed e begun add).y, true, true, .inr rfl, ?_⟩
      rw [hr]
      unfold adAbsorbed
      simp only [hall, hstate, if_true, decide_true]
      rw [← hbegun]
      rfl

theorem CcmOneShotCall.crypt_noTag (hsize : 16 ∣ sizeMod) (h : CcmClean ctx)
    (hadmitted : call.Admitted) (hsized : call.Sized sizeMod) (hzero : call.tagLen = 0)
    (hstar : call.mode.isStar = true) :
    (call.crypt (totalCipher e) sizeMod ctx).seen =
        (.ret .ok, encrypt e call.iv 0 call.input, []) ∧
      CcmClean (call.crypt (totalCipher e) sizeMod ctx).ctx := by
  obtain ⟨hn, _, _, _, had⟩ := hadmitted
  obtain ⟨ha, hp⟩ := hsized
  have hstarts := @mbedtlsCcmStarts_clean e _ call.mode _ h hn
  have hok : (mbedtlsCcmStarts (totalCipher e) ctx call.mode call.iv).ret = .ok := by
    rw [hstarts]
    rfl
  have hstate : { started := true, lengthsSet := true, authDataStarted := ctx.state.authDataStarted
                  authDataFinished := ctx.state.authDataFinished
                  error := ctx.state.error } = CcmState.begun := by
    rw [h.noError, h.noAd.1, h.noAd.2]
    rfl
  have hset : mbedtlsCcmSetLengths (totalCipher e)
      (mbedtlsCcmStarts (totalCipher e) ctx call.mode call.iv).ctx call.add.length
        call.input.length call.tagLen =
      (ccmBegunNoTag (ctx.y.store 1 call.iv) call.mode call.iv call.add.length).returns .ok := by
    rw [hstarts, hzero]
    unfold mbedtlsCcmSetLengths ccmCalculateFirstBlockIfReady
    rw [if_neg (by omega), if_neg (by omega), if_neg (by simp [MbedtlsCcmContext.returns]),
      if_pos rfl]
    refine (if_pos hstar).trans ?_
    simp only [MbedtlsCcmContext.returns, hstate]
    rfl
  obtain ⟨y', started, finished, hfinished, hupdateAd⟩ :=
    @mbedtlsCcmUpdateAd_noTag e call.iv _ (ctx.y.store 1 call.iv) call.mode _ ha
  generalize hafter : { ccmBegunNoTag y' call.mode call.iv call.add.length with
    state := { CcmState.begun with authDataStarted := started
                                   authDataFinished := finished } } = after at hupdateAd
  have hupdate : mbedtlsCcmUpdate (totalCipher e) sizeMod after call.input call.input.length =
      ccmUpdateLoop (totalCipher e) sizeMod call.input.length after call.input := by
    unfold mbedtlsCcmUpdate
    rw [← hafter, if_neg (by simp [CcmState.begun]), if_neg (by simp [ccmBegunNoTag]),
      if_neg (by omega)]
  have hindex : blockIndex sizeMod 0 = 0 := by
    unfold blockIndex
    split <;> rfl
  have hend : ∀ q, 0 < q → q ≤ 0 + call.input.length →
      (q % 16 = 0 ∨ q % sizeMod = after.plaintextLen ↔ q % 16 = 0 ∨ q = sizeMod) := by
    intro q hpos hq
    have hlt : q < sizeMod := by omega
    have hplain : after.plaintextLen = 0 := by
      rw [← hafter]
      rfl
    rw [Nat.mod_eq_of_lt hlt, hplain]
    omega
  have hloop := ccmUpdateLoop_cases (answers_totalCipher e) hn hsize call.input.length after 0
    call.input (Nat.le_refl _) (by rw [← hafter]; exact call.mode_cases) (by rw [← hafter]; rfl)
    (by rw [← hafter]; rfl) (by rw [← hafter, hindex]; rfl) (by omega) hend
  rw [← hupdate] at hloop
  rcases hloop with ⟨hbad, _⟩ | ⟨hret, hctx, hout, _⟩
  · rw [hupdate] at hbad
    exact absurd (ccmUpdateLoop_total _ _ _) hbad
  have hfinish : ∃ ctr, (mbedtlsCcmFinish (totalCipher e) (mbedtlsCcmUpdate (totalCipher e)
      sizeMod after call.input call.input.length).ctx call.tagLen).ret = .ok ∧
      (mbedtlsCcmFinish (totalCipher e) (mbedtlsCcmUpdate (totalCipher e)
        sizeMod after call.input call.input.length).ctx call.tagLen).ctx =
          mbedtlsCcmClearState ctr ∧
      (mbedtlsCcmFinish (totalCipher e) (mbedtlsCcmUpdate (totalCipher e)
        sizeMod after call.input call.input.length).ctx call.tagLen).output = [] := by
    rw [hctx, ← hafter, hzero]
    unfold mbedtlsCcmFinish
    rw [if_neg (by simp [CcmState.begun]), if_neg (by simp [CcmState.begun]),
      if_neg (by simp [CcmState.begun]), if_neg, if_neg (by simp [ccmBegunNoTag]),
      if_neg (by simp [ccmBegunNoTag])]
    · exact ⟨_, rfl, rfl, rfl⟩
    · rintro ⟨hpos, hunfinished⟩
      rcases hfinished with hnone | hfinished
      · exact absurd hnone (Nat.ne_of_gt hpos)
      · exact absurd hfinished (by rw [show finished = false from hunfinished]; simp)
  obtain ⟨ctr, hret', hctx', hout'⟩ := hfinish
  have hadctx : (mbedtlsCcmUpdateAd (totalCipher e) sizeMod
      (ccmBegunNoTag (ctx.y.store 1 call.iv) call.mode call.iv call.add.length) call.add).ctx =
        after := by
    rw [hupdateAd]
    rfl
  unfold CcmOneShotCall.crypt
  rw [ccmAuthCrypt_ok hok hset (by rw [hupdateAd]; rfl) (by rw [hadctx]; exact hret)
    (by rw [hadctx]; exact hret')]
  simp only [hadctx]
  constructor
  · unfold CcmOneShot.seen
    simp only [hout, hout']
  · rw [hctx']
    exact ⟨rfl, rfl, ⟨rfl, rfl⟩, rfl⟩

/-! ### A context in the error state -/

theorem ccmCalculateFirstBlock_error (herror : ctx.state.error = true) :
    ((ccmCalculateFirstBlockIfReady (totalCipher e) ctx).ret = .ok ∨
        (ccmCalculateFirstBlockIfReady (totalCipher e) ctx).ret = .badInput) ∧
      (ccmCalculateFirstBlockIfReady (totalCipher e) ctx).ctx.state.error = true := by
  constructor
  · unfold ccmCalculateFirstBlockIfReady
    split
    · exact .inl rfl
    split
    · split
      · exact .inl rfl
      · exact .inr rfl
    · simp only
      split
      · exact .inr rfl
      · exact .inl rfl
  · rw [← Bool.not_eq_false]
    intro hnoError
    rw [ccmCalculateFirstBlockIfReady_noError hnoError] at herror
    exact Bool.noConfusion herror

theorem CcmOneShotCall.crypt_error (herror : ctx.state.error = true) :
    (call.crypt (totalCipher e) sizeMod ctx).seen = (.ret .badInput, [], []) ∧
      (call.crypt (totalCipher e) sizeMod ctx).ctx.state.error = true := by
  have hstarts : ((mbedtlsCcmStarts (totalCipher e) ctx call.mode call.iv).ret = .ok ∨
      (mbedtlsCcmStarts (totalCipher e) ctx call.mode call.iv).ret = .badInput) ∧
      (mbedtlsCcmStarts (totalCipher e) ctx call.mode call.iv).ctx.state.error = true := by
    unfold mbedtlsCcmStarts
    split
    · exact ⟨.inr rfl, herror⟩
    · exact ccmCalculateFirstBlock_error herror
  obtain ⟨hret₁, herror₁⟩ := hstarts
  unfold CcmOneShotCall.crypt ccmAuthCrypt
  generalize mbedtlsCcmStarts (totalCipher e) ctx call.mode call.iv = starts at hret₁ herror₁ ⊢
  rcases hret₁ with hret₁ | hret₁
  · have hset : ((mbedtlsCcmSetLengths (totalCipher e) starts.ctx call.add.length
          call.input.length call.tagLen).ret = .ok ∨
        (mbedtlsCcmSetLengths (totalCipher e) starts.ctx call.add.length call.input.length
          call.tagLen).ret = .badInput) ∧
        (mbedtlsCcmSetLengths (totalCipher e) starts.ctx call.add.length call.input.length
          call.tagLen).ctx.state.error = true := by
      unfold mbedtlsCcmSetLengths
      split
      · exact ⟨.inr rfl, herror₁⟩
      · split
        · exact ⟨.inr rfl, herror₁⟩
        · exact ccmCalculateFirstBlock_error herror₁
    obtain ⟨hret₂, herror₂⟩ := hset
    generalize hs : mbedtlsCcmSetLengths (totalCipher e) starts.ctx call.add.length
      call.input.length call.tagLen = set at hret₂ herror₂
    rcases hret₂ with hret₂ | hret₂
    · have had : mbedtlsCcmUpdateAd (totalCipher e) sizeMod set.ctx call.add =
          set.ctx.returns .badInput := by
        unfold mbedtlsCcmUpdateAd
        rw [if_pos herror₂]
      have hret : (set.ctx.returns .badInput).ret = .badInput := rfl
      simp only [hret₁, hs, hret₂, had, hret, ne_eq, not_true_eq_false, if_false, reduceCtorEq,
        not_false_eq_true, if_true]
      exact ⟨rfl, herror₂⟩
    · simp only [hret₁, hs, hret₂, ne_eq, not_true_eq_false, if_false, reduceCtorEq,
        not_false_eq_true, if_true]
      exact ⟨rfl, herror₂⟩
  · simp only [hret₁, ne_eq, reduceCtorEq, not_false_eq_true, if_true]
    exact ⟨rfl, herror₁⟩

/-! ### Histories -/

theorem CcmOneShotCall.crypt_clean (hsize : 16 ∣ sizeMod) (h : CcmClean ctx)
    (hsized : call.Sized sizeMod) (hgood : ¬ call.Poisons) :
    (call.crypt (totalCipher e) sizeMod ctx).seen =
        (call.crypt (totalCipher e) sizeMod .init).seen ∧
      CcmClean (call.crypt (totalCipher e) sizeMod ctx).ctx := by
  by_cases hadmitted : call.Admitted
  · by_cases hzero : call.tagLen = 0
    · have hstar : call.mode.isStar = true := by
        rw [← Bool.not_eq_false]
        intro hnot
        exact hgood ⟨hadmitted, .inl ⟨hzero, hnot⟩⟩
      obtain ⟨hseen, hclean⟩ := crypt_noTag (e := e) hsize h hadmitted hsized hzero hstar
      obtain ⟨hseen', _⟩ := crypt_noTag (e := e) hsize .init hadmitted hsized hzero hstar
      exact ⟨hseen.trans hseen'.symm, hclean⟩
    · have hfits : call.input.length < 256 ^ lengthSize call.iv := by
        by_contra hlong
        exact hgood ⟨hadmitted, .inr ⟨hzero, Nat.le_of_not_lt hlong⟩⟩
      have ht := hadmitted.validTagLen hzero
      have hvalid := fun {ctx : MbedtlsCcmContext} (h : CcmClean ctx) =>
        ccmAuthCrypt_clean (e := e) hsize h hadmitted.1 ht call.mode_cases hadmitted.2.2.2.2
          hsized.1 hfits hsized.2
      obtain ⟨hret, hout, htag, hclean⟩ := hvalid h
      obtain ⟨hret', hout', htag', _⟩ := hvalid CcmClean.init
      refine ⟨?_, hclean⟩
      unfold CcmOneShot.seen crypt
      rw [hret, hout, htag, hret', hout', htag']
  · obtain ⟨hseen, hclean⟩ := @crypt_refused e sizeMod _ _ h hadmitted
    obtain ⟨hseen', _⟩ := @crypt_refused e sizeMod _ _ .init hadmitted
    exact ⟨hseen.trans hseen'.symm, hclean⟩

theorem ccmAfter_cases (hsize : 16 ∣ sizeMod) (history : List CcmOneShotCall)
    (hsized : ∀ call ∈ history, call.Sized sizeMod) :
    ((∀ call ∈ history, ¬ call.Poisons) ∧
        CcmClean (ccmAfter (totalCipher e) sizeMod .init history)) ∨
      ((∃ call ∈ history, call.Poisons) ∧
        (ccmAfter (totalCipher e) sizeMod .init history).state.error = true) := by
  induction history using List.reverseRecOn with
  | nil => exact .inl ⟨fun call hmem => absurd hmem List.not_mem_nil, .init⟩
  | append_singleton history call ih =>
    have hstep : ccmAfter (totalCipher e) sizeMod .init (history ++ [call]) =
        (call.run (totalCipher e) sizeMod
          (ccmAfter (totalCipher e) sizeMod .init history)).ctx := by
      unfold ccmAfter
      rw [List.foldl_append]
      rfl
    rw [hstep, CcmOneShotCall.run_ctx]
    have hlast : call ∈ history ++ [call] := List.mem_append_right _ (List.mem_singleton.mpr rfl)
    rcases ih fun call hmem => hsized call (List.mem_append_left _ hmem) with
      ⟨hgood, hclean⟩ | ⟨⟨bad, hmem, hbad⟩, herror⟩
    · by_cases hpoisons : call.Poisons
      · right
        exact ⟨⟨call, hlast, hpoisons⟩, (call.crypt_poisons hclean hpoisons).2⟩
      left
      refine ⟨?_, (call.crypt_clean hsize hclean (hsized call hlast) hpoisons).2⟩
      intro other hother
      rcases List.mem_append.mp hother with hother | hother
      · exact hgood other hother
      · rw [List.mem_singleton.mp hother]
        exact hpoisons
    · right
      exact ⟨⟨bad, List.mem_append_left _ hmem, hbad⟩, (call.crypt_error herror).2⟩

theorem CcmOneShotCall.crypt_init_ok (hsize : 16 ∣ sizeMod) (hsized : call.Sized sizeMod)
    (hadmitted : call.Admitted) (hgood : ¬ call.Poisons) :
    (call.crypt (totalCipher e) sizeMod .init).ret = .ret .ok := by
  by_cases hzero : call.tagLen = 0
  · have hstar : call.mode.isStar = true := by
      rw [← Bool.not_eq_false]
      intro hnot
      exact hgood ⟨hadmitted, .inl ⟨hzero, hnot⟩⟩
    exact (Prod.mk.inj (crypt_noTag (e := e) hsize .init hadmitted hsized hzero hstar).1).1
  · have hfits : call.input.length < 256 ^ lengthSize call.iv := by
      by_contra hlong
      exact hgood ⟨hadmitted, .inr ⟨hzero, Nat.le_of_not_lt hlong⟩⟩
    exact (ccmAuthCrypt_clean hsize .init hadmitted.1 (hadmitted.validTagLen hzero)
      call.mode_cases hadmitted.2.2.2.2 hsized.1 hfits hsized.2).1

theorem CcmOneShotCall.run_ret {cipher : BlockCipher} :
    ((call.run cipher sizeMod ctx).ret = .ret .badInput ↔
      (call.crypt cipher sizeMod ctx).ret = .ret .badInput) := by
  have hdecrypt : ∀ (mode : CcmMode) (iv add input tag : ByteString) (tagLen : Nat),
      (ccmAuthDecrypt cipher sizeMod ctx mode iv add input tag tagLen).ret = .ret .badInput ↔
        (ccmAuthCrypt cipher sizeMod ctx mode iv add input tagLen).ret = .ret .badInput := by
    intro mode iv add input tag tagLen
    unfold ccmAuthDecrypt
    simp only
    split
    · exact Iff.rfl
    next hok =>
    rw [Classical.not_not.mp hok]
    split
    · exact ⟨fun h => CcmAuthRet.noConfusion h, fun h => by cases h⟩
    · exact Iff.rfl
  cases call with
  | encryptAndTag iv add input tagLen => exact Iff.rfl
  | starEncryptAndTag iv add input tagLen => exact Iff.rfl
  | authDecrypt iv add input tag tagLen => exact hdecrypt _ _ _ _ _ _
  | starAuthDecrypt iv add input tag tagLen => exact hdecrypt _ _ _ _ _ _

end Histories

/-- A one-shot call gives what it gives on a freshly keyed context exactly where no earlier call
failed in `ccm_calculate_first_block_if_ready`, or the call itself is refused anyway. -/
theorem ccm_one_shot_history (e : Block 16 → Block 16) (sizeMod : Nat) (hsize : 16 ∣ sizeMod)
    (history : List CcmOneShotCall) (hhistory : ∀ call ∈ history, call.Sized sizeMod)
    (call : CcmOneShotCall) (hcall : call.Sized sizeMod) :
    (call.run (totalCipher e) sizeMod (ccmAfter (totalCipher e) sizeMod .init history)).seen =
        (call.run (totalCipher e) sizeMod .init).seen ↔
      (∀ earlier ∈ history, ¬ earlier.Poisons) ∨ ¬ call.Admitted ∨ call.Poisons := by
  rcases ccmAfter_cases (e := e) hsize history hhistory with ⟨hgood, hclean⟩ | ⟨hbad, herror⟩
  · refine iff_of_true ?_ (.inl hgood)
    apply CcmOneShotCall.run_of_crypt
    by_cases hpoisons : call.Poisons
    · rw [(call.crypt_poisons hclean hpoisons).1, (call.crypt_poisons .init hpoisons).1]
    · exact (call.crypt_clean hsize hclean hcall hpoisons).1
  · have hseen := (@CcmOneShotCall.crypt_error e sizeMod call _ herror).1
    constructor
    · intro hsame
      right
      by_contra hok
      obtain ⟨hadmitted, hpoisons⟩ := not_or.mp hok
      have hret := CcmOneShotCall.run_ret.mpr (Prod.mk.inj hseen).1
      have hfresh := (Prod.mk.inj hsame).1.symm.trans hret
      have hinit := CcmOneShotCall.run_ret.mp hfresh
      rw [call.crypt_init_ok hsize hcall (not_not.mp hadmitted) hpoisons] at hinit
      cases hinit
    · intro hcases
      apply CcmOneShotCall.run_of_crypt
      rw [hseen]
      rcases hcases with hgood | hrefused | hpoisons
      · obtain ⟨bad, hmem, hpoisons⟩ := hbad
        exact absurd hpoisons (hgood bad hmem)
      · exact (call.crypt_refused .init hrefused).1.symm
      · exact (call.crypt_poisons .init hpoisons).1.symm

theorem ccm_one_shot_history_witness :
    ((CcmOneShotCall.encryptAndTag (List.replicate 13 0) [1] [2, 3] 4).run
        (totalCipher nextBytes) (2 ^ 64) (ccmAfter (totalCipher nextBytes) (2 ^ 64) .init
          [.encryptAndTag (List.replicate 13 0) [] [2] 5,
            .authDecrypt (List.replicate 13 0) [] [2] [0, 0, 0, 0] 4])).seen =
      ((CcmOneShotCall.encryptAndTag (List.replicate 13 0) [1] [2, 3] 4).run
        (totalCipher nextBytes) (2 ^ 64) .init).seen := by
  apply (ccm_one_shot_history nextBytes (2 ^ 64) (by decide)
    [.encryptAndTag (List.replicate 13 0) [] [2] 5,
      .authDecrypt (List.replicate 13 0) [] [2] [0, 0, 0, 0] 4] ?_
    (.encryptAndTag (List.replicate 13 0) [1] [2, 3] 4) ⟨by decide, by decide⟩).mpr
  · left
    intro earlier hmem
    simp only [List.mem_cons, List.not_mem_nil, or_false] at hmem
    rintro ⟨⟨_, _, _, heven, _⟩, hbad⟩
    rcases hmem with rfl | rfl
    · exact absurd heven (by decide)
    · rcases hbad with ⟨hzero, _⟩ | ⟨_, hlong⟩
      · exact absurd hzero (by decide)
      · exact absurd hlong (by decide)
  · intro earlier hmem
    simp only [List.mem_cons, List.not_mem_nil, or_false] at hmem
    rcases hmem with rfl | rfl <;> exact ⟨by decide, by decide⟩

/-- **Counterexample.** An encryption with `tag_len` 0 fails, and every later call fails as well. -/
theorem ccm_one_shot_poisoned :
    ((CcmOneShotCall.encryptAndTag (List.replicate 13 0) [] [2] 4).run (totalCipher nextBytes)
        (2 ^ 64) .init).ret = .ret .ok ∧
      ((CcmOneShotCall.encryptAndTag (List.replicate 13 0) [] [2] 4).run (totalCipher nextBytes)
        (2 ^ 64) (ccmAfter (totalCipher nextBytes) (2 ^ 64) .init
          [.encryptAndTag (List.replicate 13 0) [] [2] 0])).ret = .ret .badInput := by
  decide +kernel

end TfPsaCrypto
