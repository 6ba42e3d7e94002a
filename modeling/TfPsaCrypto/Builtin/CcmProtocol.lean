import TfPsaCrypto.Builtin.CcmLoops

/-!
# CCM: declared lengths and order

What `mbedtls_ccm_finish` promises where it returns 0: one counter, `processed`, serves the
additional data and the message.
-/

namespace TfPsaCrypto

open Bytes Blocks CounterCbcMac CounterStream

/-! ## Traces -/

abbrev CcmEvent := (CcmCall × BlockCipher) × CcmResult

def CcmEvent.ad : CcmEvent → ByteString
  | ((.updateAd add, _), r) => if r.ret = .ok then add else []
  | _ => []

def CcmEvent.input : CcmEvent → ByteString
  | ((.update input _, _), r) => if r.ret = .ok then input else []
  | _ => []

def CcmEvent.messageOutput : CcmEvent → ByteString
  | ((.update _ _, _), r) => if r.ret = .ok then r.output else []
  | _ => []

def acceptedAd (tr : List CcmEvent) : ByteString := tr.flatMap CcmEvent.ad

def acceptedInput (tr : List CcmEvent) : ByteString := tr.flatMap CcmEvent.input

def acceptedOutput (tr : List CcmEvent) : ByteString := tr.flatMap CcmEvent.messageOutput

def ccmLog (tr : List CcmEvent) : List (Feed (Block 16)) := tr.flatMap (·.2.log)

def StartedWith (tr : List CcmEvent) (mode : CcmMode) (nonce : ByteString) : Prop :=
  ∃ cipher r, ((.starts mode nonce, cipher), r) ∈ tr ∧ r.ret = .ok

def DeclaredLengths (tr : List CcmEvent) (totalAdLen plaintextLen tagLen : Nat) : Prop :=
  ∃ cipher r, ((.setLengths totalAdLen plaintextLen tagLen, cipher), r) ∈ tr ∧ r.ret = .ok

def AdFirst (tr : List CcmEvent) : Prop :=
  History.Each (fun pre ev => ev.ad ≠ [] → acceptedInput pre = []) tr

def CcmEnforced (e : Block 16 → Block 16) (tr : List CcmEvent) (tagLen : Nat)
    (tag : ByteString) : Prop :=
  ∃ mode nonce totalAdLen plaintextLen, StartedWith tr mode nonce ∧
    DeclaredLengths tr totalAdLen plaintextLen tagLen ∧
    (acceptedAd tr).length = totalAdLen ∧ (acceptedInput tr).length = plaintextLen ∧
    AdFirst tr ∧ acceptedOutput tr = encrypt e nonce 0 (acceptedInput tr) ∧
    tag = CounterCbcMac.tag e nonce (acceptedAd tr)
      (plaintextOf mode (acceptedInput tr) (acceptedOutput tr)) tagLen

/-- The calls in the documented order, with a mode, a tag, and sums of lengths that fit in `size_t`.
-/
def CcmOrder (sizeMod : Nat) (ctx : MbedtlsCcmContext) : CcmCall × BlockCipher → Prop
  | (.starts mode _, _) =>
    ctx.state.started = false ∧ (mode.isEncrypt = true ∨ mode.isDecrypt = true)
  | (.setLengths _ _ tagLen, _) => ctx.state.lengthsSet = false ∧ tagLen ≠ 0
  | (.updateAd add, _) =>
    add = [] ∨ (ctx.state.started = true ∧ ctx.processed + add.length < sizeMod)
  | (.update input _, _) =>
    input = [] ∨ (ctx.state.started = true ∧ ctx.state.lengthsSet = true ∧
      (ctx.addLen = 0 ∨ ctx.state.authDataFinished = true) ∧
      ctx.processed + input.length < sizeMod)

instance (sizeMod : Nat) (ctx : MbedtlsCcmContext) :
    ∀ a : CcmCall × BlockCipher, Decidable (CcmOrder sizeMod ctx a)
  | (.starts _ _, _) => inferInstanceAs (Decidable (_ ∧ _))
  | (.setLengths _ _ _, _) => inferInstanceAs (Decidable (_ ∧ _))
  | (.updateAd _, _) => inferInstanceAs (Decidable (_ ∨ _))
  | (.update _ _, _) => inferInstanceAs (Decidable (_ ∨ _))

/-! ## The first block -/

variable {e : Block 16 → Block 16} {cipher : BlockCipher} {nonce : ByteString}
variable {a : Nat}

/-- A tag length that `mbedtls_ccm_set_lengths` accepts, other than 0. -/
def ValidTagLen (tagLen : Nat) : Prop := 4 ≤ tagLen ∧ tagLen ≤ 16 ∧ tagLen % 2 = 0

theorem flags_or (hn : ValidNonce nonce) {t : Nat} (ht : ValidTagLen t) :
    (0 : UInt8) ||| (if a > 0 then (0x40 : UInt8) else 0) |||
      UInt8.ofNat (((t - 2) / 2) <<< 3) ||| UInt8.ofNat (lengthSize nonce - 1) =
        UInt8.ofNat (flags nonce a t) := by
  obtain ⟨hlo, hhi, _⟩ := hn.sizes
  obtain ⟨ht4, ht16, _⟩ := ht
  have hbits : ∀ i < 8, ∀ j < 8, ∀ b : Bool,
      (0 : UInt8) ||| (if b then (0x40 : UInt8) else 0) ||| UInt8.ofNat (i <<< 3) |||
        UInt8.ofNat j = UInt8.ofNat (64 * (if b then 1 else 0) + 8 * i + j) := by
    decide
  have h := hbits ((t - 2) / 2) (by omega) (lengthSize nonce - 1) (by omega) (decide (a > 0))
  unfold flags
  by_cases ha : a = 0
  · subst ha
    simpa using h
  · have hpos : a > 0 := by omega
    simpa [ha, hpos] using h

theorem starts_firstBlock (hn : ValidNonce nonce) {y : Block 16} {p t : Nat} :
    ((y.store 1 nonce).store 0 [UInt8.ofNat (flags nonce a t)]).store
      (16 - lengthSize nonce) (toBE (lengthSize nonce) p) = firstBlock nonce a p t := by
  obtain ⟨_, _, hsum⟩ := hn.sizes
  have hhead : ([UInt8.ofNat (flags nonce a t)] ++ nonce).length = 16 - lengthSize nonce := by
    simp only [List.length_append, List.length_singleton]
    omega
  funext k
  unfold firstBlock Block.ofList Block.store
  rw [length_toBE]
  by_cases hk : (k : Nat) < 16 - lengthSize nonce
  · rw [if_neg (by omega), List.getD_append _ _ _ _ (by omega)]
    by_cases hzero : (k : Nat) = 0
    · simp [hzero]
    · obtain ⟨i, hi⟩ := Nat.exists_eq_succ_of_ne_zero hzero
      rw [if_neg (by simp only [List.length_singleton]; omega), if_pos (by omega), hi]
      rfl
  · rw [if_pos (by omega), List.getD_append_right _ _ _ _ (by omega), hhead]

theorem ccmCalculateFirstBlockIfReady_cases (hc : Answers e cipher) (hn : ValidNonce nonce)
    {ctx : MbedtlsCcmContext} (hstarted : ctx.state.started = true)
    (hlengths : ctx.state.lengthsSet = true) (htag : ValidTagLen ctx.tagLen)
    (hq : ctx.q = lengthSize nonce) (hy : ctx.y = Block.zero.store 1 nonce) :
    ((ccmCalculateFirstBlockIfReady cipher ctx).ret ≠ .ok ∧
        (ccmCalculateFirstBlockIfReady cipher ctx).ctx.state.error = true) ∨
      (ctx.plaintextLen < 256 ^ ctx.q ∧ ccmCalculateFirstBlockIfReady cipher ctx =
        { ctx with
            y := e (firstBlock nonce ctx.addLen ctx.plaintextLen ctx.tagLen) }.returns .ok) := by
  have htag0 : ctx.tagLen ≠ 0 := by
    have := htag.1
    omega
  have hzero : (Block.zero.store 1 nonce : Block 16) 0 = 0 := by
    unfold Block.store
    rw [if_neg (by simp)]
    rfl
  unfold ccmCalculateFirstBlockIfReady
  rw [if_neg (by simp [hstarted, hlengths]), if_neg htag0]
  simp only
  split
  · left
    exact ⟨by simp [MbedtlsCcmContext.fails], rfl⟩
  next hfits =>
  have hblock : (ctx.y.store 0 [ctx.y 0 ||| (if ctx.addLen > 0 then (0x40 : UInt8) else 0) |||
      UInt8.ofNat (((ctx.tagLen - 2) / 2) <<< 3) ||| UInt8.ofNat (ctx.q - 1)]).store
        (16 - ctx.q) (toBE ctx.q ctx.plaintextLen) =
          firstBlock nonce ctx.addLen ctx.plaintextLen ctx.tagLen := by
    rw [hq, hy, hzero, flags_or hn htag, starts_firstBlock hn]
  rw [hblock]
  rcases encryptY_cases hc { ctx with
    y := firstBlock nonce ctx.addLen ctx.plaintextLen ctx.tagLen } with ⟨code, h⟩ | h
  · left
    rw [h]
    exact ⟨by simp [MbedtlsCcmContext.fails], rfl⟩
  · right
    have hzero : ctx.plaintextLen / 256 ^ ctx.q = 0 := Nat.eq_zero_of_not_pos hfits
    exact ⟨(Nat.div_eq_zero_iff_lt (Nat.pow_pos (by omega))).mp hzero, h⟩

/-! ## The invariant -/

/-- Before both of `mbedtls_ccm_starts` and `mbedtls_ccm_set_lengths` have been called. -/
structure CcmCollecting (tr : List CcmEvent) (ctx : MbedtlsCcmContext) : Prop where
  noAd : acceptedAd tr = []
  noInput : acceptedInput tr = []
  noOutput : acceptedOutput tr = []
  noLog : ccmLog tr = []
  adFirst : AdFirst tr
  adState : ctx.state.authDataStarted = false ∧ ctx.state.authDataFinished = false
  processed : ctx.processed = 0
  notReady : ctx.state.started = false ∨ ctx.state.lengthsSet = false
  zeroY : ctx.state.started = false → ctx.y = Block.zero
  nonce : ctx.state.started = true → ∃ nonce, StartedWith tr ctx.mode nonce ∧
    ValidNonce nonce ∧ (ctx.mode.isEncrypt = true ∨ ctx.mode.isDecrypt = true) ∧
    ctx.q = lengthSize nonce ∧ ctx.ctr = messageBlock nonce 0 ∧ ctx.y = Block.zero.store 1 nonce
  noLengths : ctx.state.lengthsSet = false → ctx.addLen = 0
  lengths : ctx.state.lengthsSet = true →
    DeclaredLengths tr ctx.addLen ctx.plaintextLen ctx.tagLen ∧ ValidTagLen ctx.tagLen

def ccmFirst (e : Block 16 → Block 16) (ctx : MbedtlsCcmContext) (nonce : ByteString) : Block 16 :=
  e (firstBlock nonce ctx.addLen ctx.plaintextLen ctx.tagLen)

structure CcmAdPhase (e : Block 16 → Block 16) (tr : List CcmEvent) (ctx : MbedtlsCcmContext)
    (nonce : ByteString) : Prop where
  unfinished : ctx.addLen > 0 ∧ ctx.state.authDataFinished = false
  noInput : acceptedInput tr = []
  noOutput : acceptedOutput tr = []
  processed : ctx.processed = (acceptedAd tr).length
  ctr : ctx.ctr = messageBlock nonce 0
  first : ctx.state.authDataStarted = false → acceptedAd tr = [] ∧ ctx.y = ccmFirst e ctx nonce
  later : ctx.state.authDataStarted = true →
    ctx.y = absorbTo e (ccmFirst e ctx nonce) 0 (ctx.addLen + 2)
      (toBE 2 ctx.addLen ++ acceptedAd tr)

structure CcmMessagePhase (e : Block 16 → Block 16) (tr : List CcmEvent)
    (ctx : MbedtlsCcmContext) (nonce : ByteString) : Prop where
  finished : ctx.addLen = 0 ∨ ctx.state.authDataFinished = true
  allAd : (acceptedAd tr).length = ctx.addLen
  processed : ctx.processed = (acceptedInput tr).length
  bound : (acceptedInput tr).length ≤ ctx.plaintextLen
  output : acceptedOutput tr = encrypt e nonce 0 (acceptedInput tr)
  ctr : ctx.ctr = messageBlock nonce (blockIndex ctx.plaintextLen (acceptedInput tr).length)
  y : ctx.y = absorbTo e (chain e (ccmFirst e ctx nonce) (blocksOf 16 (encodedAd (acceptedAd tr))))
    0 ctx.plaintextLen (plaintextOf ctx.mode (acceptedInput tr) (acceptedOutput tr))

structure CcmRunning (e : Block 16 → Block 16) (tr : List CcmEvent) (ctx : MbedtlsCcmContext)
    (nonce : ByteString) : Prop where
  started : ctx.state.started = true
  lengthsSet : ctx.state.lengthsSet = true
  startedWith : StartedWith tr ctx.mode nonce
  validNonce : ValidNonce nonce
  mode : ctx.mode.isEncrypt = true ∨ ctx.mode.isDecrypt = true
  q : ctx.q = lengthSize nonce
  lengths : DeclaredLengths tr ctx.addLen ctx.plaintextLen ctx.tagLen
  tagLen : ValidTagLen ctx.tagLen
  fits : ctx.plaintextLen < 256 ^ ctx.q
  adFirst : AdFirst tr
  feeds : Feeds 16 (messageBlock nonce) 0 (ccmLog tr) (acceptedInput tr).length
  phase : CcmAdPhase e tr ctx nonce ∨ CcmMessagePhase e tr ctx nonce

def CcmFeeds (tr : List CcmEvent) : Prop :=
  ∃ nonce b, ValidNonce nonce ∧ b < 256 ^ lengthSize nonce ∧
    Feeds 16 (messageBlock nonce) 0 (ccmLog tr) b

def CcmInv (e : Block 16 → Block 16) (tr : List CcmEvent) (ctx : MbedtlsCcmContext) : Prop :=
  CcmFeeds tr ∧
    (ctx.state.error = false → CcmCollecting tr ctx ∨ ∃ nonce, CcmRunning e tr ctx nonce)

/-! ### Traces that grow by one event -/

section Grow

variable {tr : List CcmEvent} {ev : CcmEvent}

theorem acceptedAd_snoc : acceptedAd (tr ++ [ev]) = acceptedAd tr ++ ev.ad := by
  simp [acceptedAd]

theorem acceptedInput_snoc : acceptedInput (tr ++ [ev]) = acceptedInput tr ++ ev.input := by
  simp [acceptedInput]

theorem acceptedOutput_snoc :
    acceptedOutput (tr ++ [ev]) = acceptedOutput tr ++ ev.messageOutput := by
  simp [acceptedOutput]

theorem ccmLog_snoc : ccmLog (tr ++ [ev]) = ccmLog tr ++ ev.2.log := by
  simp [ccmLog]

theorem StartedWith.snoc {mode : CcmMode} (h : StartedWith tr mode nonce) :
    StartedWith (tr ++ [ev]) mode nonce := by
  obtain ⟨cipher, r, hmem, hret⟩ := h
  exact ⟨cipher, r, List.mem_append_left _ hmem, hret⟩

theorem DeclaredLengths.snoc {p t : Nat} (h : DeclaredLengths tr a p t) :
    DeclaredLengths (tr ++ [ev]) a p t := by
  obtain ⟨cipher, r, hmem, hret⟩ := h
  exact ⟨cipher, r, List.mem_append_left _ hmem, hret⟩

theorem AdFirst.snoc (h : AdFirst tr) (hev : ev.ad ≠ [] → acceptedInput tr = []) :
    AdFirst (tr ++ [ev]) :=
  History.each_append_singleton.mpr ⟨h, hev⟩

structure CcmEvent.Silent (ev : CcmEvent) : Prop where
  ad : ev.ad = []
  input : ev.input = []
  messageOutput : ev.messageOutput = []
  log : ev.2.log = []

theorem CcmEvent.silent_of_ret (h : ev.2.ret ≠ .ok) (hlog : ev.2.log = []) : ev.Silent := by
  obtain ⟨⟨call, cipher⟩, r⟩ := ev
  cases call <;> constructor <;> simp_all [CcmEvent.ad, CcmEvent.input, CcmEvent.messageOutput]

section Silent

variable (hev : ev.Silent)
include hev

theorem CcmEvent.Silent.acceptedAd : acceptedAd (tr ++ [ev]) = acceptedAd tr := by
  rw [acceptedAd_snoc, hev.ad, List.append_nil]

theorem CcmEvent.Silent.acceptedInput : acceptedInput (tr ++ [ev]) = acceptedInput tr := by
  rw [acceptedInput_snoc, hev.input, List.append_nil]

theorem CcmEvent.Silent.acceptedOutput : acceptedOutput (tr ++ [ev]) = acceptedOutput tr := by
  rw [acceptedOutput_snoc, hev.messageOutput, List.append_nil]

theorem CcmEvent.Silent.ccmLog : ccmLog (tr ++ [ev]) = ccmLog tr := by
  rw [ccmLog_snoc, hev.log, List.append_nil]

theorem CcmEvent.Silent.ccmFeeds (h : CcmFeeds tr) : CcmFeeds (tr ++ [ev]) := by
  unfold CcmFeeds
  rw [hev.ccmLog]
  exact h

theorem CcmEvent.Silent.adFirst (h : AdFirst tr) : AdFirst (tr ++ [ev]) :=
  h.snoc fun hne => absurd hev.ad hne

end Silent

theorem CcmInv.silent {ctx : MbedtlsCcmContext} (h : CcmInv e tr ctx) (hev : ev.Silent) :
    CcmInv e (tr ++ [ev]) ctx := by
  have had : acceptedAd (tr ++ [ev]) = acceptedAd tr := hev.acceptedAd
  have hinput : acceptedInput (tr ++ [ev]) = acceptedInput tr := hev.acceptedInput
  have houtput : acceptedOutput (tr ++ [ev]) = acceptedOutput tr := hev.acceptedOutput
  have hlog : TfPsaCrypto.ccmLog (tr ++ [ev]) = TfPsaCrypto.ccmLog tr := hev.ccmLog
  refine ⟨hev.ccmFeeds h.1, ?_⟩
  intro herror
  rcases h.2 herror with hcoll | ⟨nonce, hrun⟩
  · left
    constructor
    · rw [had, hcoll.noAd]
    · rw [hinput, hcoll.noInput]
    · rw [houtput, hcoll.noOutput]
    · rw [hlog, hcoll.noLog]
    · exact hev.adFirst hcoll.adFirst
    · exact hcoll.adState
    · exact hcoll.processed
    · exact hcoll.notReady
    · exact hcoll.zeroY
    · intro hstarted
      obtain ⟨nonce, hwith, hrest⟩ := hcoll.nonce hstarted
      exact ⟨nonce, hwith.snoc, hrest⟩
    · exact hcoll.noLengths
    · intro hset
      obtain ⟨hdeclared, hrest⟩ := hcoll.lengths hset
      exact ⟨hdeclared.snoc, hrest⟩
  · right
    refine ⟨nonce, { hrun with
      startedWith := hrun.startedWith.snoc
      lengths := hrun.lengths.snoc
      adFirst := hev.adFirst hrun.adFirst
      feeds := by
        rw [hlog, hinput]
        exact hrun.feeds
      phase := ?_ }⟩
    rcases hrun.phase with hphase | hphase
    · left
      constructor
      · exact hphase.unfinished
      · rw [hinput, hphase.noInput]
      · rw [houtput, hphase.noOutput]
      · rw [had, hphase.processed]
      · exact hphase.ctr
      · rw [had]
        exact hphase.first
      · rw [had]
        exact hphase.later
    · right
      constructor
      · exact hphase.finished
      · rw [had, hphase.allAd]
      · rw [hinput, hphase.processed]
      · rw [hinput]
        exact hphase.bound
      · rw [houtput, hinput, hphase.output]
      · rw [hinput, hphase.ctr]
      · rw [had, hinput, houtput, hphase.y]

end Grow

/-! ## One call -/

variable {add input : ByteString}

section Steps

variable {tr : List CcmEvent} {ctx : MbedtlsCcmContext}

theorem ccmCalculateFirstBlockIfReady_noError
    (h : (ccmCalculateFirstBlockIfReady cipher ctx).ctx.state.error = false) :
    ctx.state.error = false := by
  by_contra hne
  rw [Bool.not_eq_false] at hne
  have herror : (ccmCalculateFirstBlockIfReady cipher ctx).ctx.state.error = true := by
    unfold ccmCalculateFirstBlockIfReady encryptY
    split
    · exact hne
    split
    · split
      · exact hne
      · rfl
    simp only
    split
    · rfl
    · split
      · rfl
      · exact hne
  rw [h] at herror
  exact Bool.noConfusion herror

theorem ccmCalculateFirstBlockIfReady_log :
    (ccmCalculateFirstBlockIfReady cipher ctx).log = [] := by
  unfold ccmCalculateFirstBlockIfReady encryptY
  split
  · rfl
  split
  · split <;> rfl
  · simp only
    split
    · rfl
    · split <;> rfl

theorem ccmCalculateFirstBlockIfReady_notReady
    (h : ctx.state.started = false ∨ ctx.state.lengthsSet = false) :
    ccmCalculateFirstBlockIfReady cipher ctx = ctx.returns .ok := by
  unfold ccmCalculateFirstBlockIfReady
  rw [if_pos h]

structure CcmReady (tr : List CcmEvent) (ctx : MbedtlsCcmContext) (nonce : ByteString) : Prop where
  noAd : acceptedAd tr = []
  noInput : acceptedInput tr = []
  noOutput : acceptedOutput tr = []
  noLog : ccmLog tr = []
  adFirst : AdFirst tr
  adState : ctx.state.authDataStarted = false ∧ ctx.state.authDataFinished = false
  started : ctx.state.started = true
  lengthsSet : ctx.state.lengthsSet = true
  validNonce : ValidNonce nonce
  mode : ctx.mode.isEncrypt = true ∨ ctx.mode.isDecrypt = true
  q : ctx.q = lengthSize nonce
  ctr : ctx.ctr = messageBlock nonce 0
  y : ctx.y = Block.zero.store 1 nonce
  processed : ctx.processed = 0
  tagLen : ValidTagLen ctx.tagLen

theorem CcmReady.phase (h : CcmReady tr ctx nonce) :
    CcmAdPhase e tr { ctx with y := ccmFirst e ctx nonce } nonce ∨
      CcmMessagePhase e tr { ctx with y := ccmFirst e ctx nonce } nonce := by
  by_cases ha : ctx.addLen = 0
  · right
    constructor
    · exact Or.inl ha
    · rw [h.noAd]
      exact ha.symm
    · rw [h.noInput]
      exact h.processed
    · rw [h.noInput]
      exact Nat.zero_le _
    · rw [h.noOutput, h.noInput]
      rfl
    · rw [h.noInput]
      have hindex : blockIndex ctx.plaintextLen 0 = 0 := by
        unfold blockIndex
        split <;> rfl
      show ctx.ctr = messageBlock nonce (blockIndex ctx.plaintextLen 0)
      rw [hindex, h.ctr]
    · have hplain : plaintextOf ctx.mode [] [] = [] := by
        unfold plaintextOf
        split <;> rfl
      rw [h.noAd, h.noInput, h.noOutput]
      rw [hplain, absorbTo_nil, encodedAd, if_pos rfl, blocksOf_nil (by omega)]
      rfl
  · left
    constructor
    · exact ⟨Nat.pos_of_ne_zero ha, h.adState.2⟩
    · exact h.noInput
    · exact h.noOutput
    · rw [h.noAd]
      exact h.processed
    · exact h.ctr
    · intro _
      exact ⟨h.noAd, rfl⟩
    · intro hstarted'
      exact absurd hstarted' (by simp [h.adState.1])

theorem CcmReady.inv (hc : Answers e cipher) (h : CcmReady tr ctx nonce)
    (hwith : (ccmCalculateFirstBlockIfReady cipher ctx).ret = .ok →
      StartedWith tr ctx.mode nonce ∧ DeclaredLengths tr ctx.addLen ctx.plaintextLen ctx.tagLen) :
    CcmInv e tr (ccmCalculateFirstBlockIfReady cipher ctx).ctx := by
  have hfeeds : Feeds 16 (messageBlock nonce) 0 (ccmLog tr) 0 := by
    rw [h.noLog]
    exact .nil
  refine ⟨⟨nonce, 0, h.validNonce, Nat.pow_pos (by omega), hfeeds⟩, ?_⟩
  rcases ccmCalculateFirstBlockIfReady_cases hc h.validNonce h.started h.lengthsSet h.tagLen
    h.q h.y with ⟨_, herror⟩ | ⟨hfits, hready⟩
  · intro hnoError
    rw [herror] at hnoError
    exact Bool.noConfusion hnoError
  · rw [hready] at hwith ⊢
    obtain ⟨hstarted, hlengths⟩ := hwith rfl
    intro _
    right
    exact ⟨nonce, h.started, h.lengthsSet, hstarted, h.validNonce, h.mode, h.q, hlengths,
      h.tagLen, hfits, h.adFirst, by rw [h.noInput]; exact hfeeds, h.phase⟩

theorem mbedtlsCcmStarts_inv (hc : Answers e cipher) (h : CcmInv e tr ctx) {mode : CcmMode}
    {iv : ByteString} (hstarted : ctx.state.started = false)
    (hmode : mode.isEncrypt = true ∨ mode.isDecrypt = true) :
    CcmInv e (tr ++ [((.starts mode iv, cipher), mbedtlsCcmStarts cipher ctx mode iv)])
      (mbedtlsCcmStarts cipher ctx mode iv).ctx := by
  generalize hr : mbedtlsCcmStarts cipher ctx mode iv = r
  generalize hev : (((.starts mode iv, cipher), r) : CcmEvent) = ev
  have hlog : r.log = [] := by
    rw [← hr]
    unfold mbedtlsCcmStarts
    split
    · rfl
    · exact ccmCalculateFirstBlockIfReady_log
  have hsilent : CcmEvent.Silent ev := hev ▸ ⟨rfl, rfl, rfl, hlog⟩
  unfold mbedtlsCcmStarts at hr
  split at hr
  · subst hr
    exact h.silent hsilent
  next hiv =>
  have hvalid : ValidNonce iv := by
    unfold ValidNonce
    omega
  have hq : 16 - 1 - iv.length = lengthSize iv := rfl
  simp only [hq, starts_counterBlock hvalid] at hr
  have hwith : r.ret = .ok → StartedWith (tr ++ [ev]) mode iv := by
    intro hok
    exact ⟨cipher, r, by simp [hev], hok⟩
  refine ⟨hsilent.ccmFeeds h.1, ?_⟩
  intro herror
  rw [← hr] at herror
  have herror' : ctx.state.error = false := by
    have hbefore := ccmCalculateFirstBlockIfReady_noError herror
    exact hbefore
  rcases h.2 herror' with hcoll | ⟨nonce, hrun⟩
  · by_cases hset : ctx.state.lengthsSet = true
    · -- the second of the two calls
      obtain ⟨hdeclared, htag⟩ := hcoll.lengths hset
      have hready : CcmReady (tr ++ [ev]) { ctx with
          mode := mode
          q := lengthSize iv
          ctr := counterBlock iv 1
          y := ctx.y.store 1 iv
          state := { ctx.state with started := true } } iv :=
        { noAd := hsilent.acceptedAd.trans hcoll.noAd
          noInput := hsilent.acceptedInput.trans hcoll.noInput
          noOutput := hsilent.acceptedOutput.trans hcoll.noOutput
          noLog := hsilent.ccmLog.trans hcoll.noLog
          adFirst := hsilent.adFirst hcoll.adFirst
          adState := hcoll.adState
          started := rfl
          lengthsSet := hset
          validNonce := hvalid
          mode := hmode
          q := rfl
          ctr := rfl
          y := by rw [hcoll.zeroY hstarted]
          processed := hcoll.processed
          tagLen := htag }
      have hinv := hready.inv hc fun hok => ⟨hwith (hr ▸ hok), hdeclared.snoc⟩
      rw [hr] at hinv
      exact hinv.2 (hr ▸ herror)
    · rw [ccmCalculateFirstBlockIfReady_notReady (Or.inr (Bool.not_eq_true _ ▸ hset))] at hr
      subst hr
      left
      exact
        { noAd := hsilent.acceptedAd.trans hcoll.noAd
          noInput := hsilent.acceptedInput.trans hcoll.noInput
          noOutput := hsilent.acceptedOutput.trans hcoll.noOutput
          noLog := hsilent.ccmLog.trans hcoll.noLog
          adFirst := hsilent.adFirst hcoll.adFirst
          adState := hcoll.adState
          processed := hcoll.processed
          notReady := Or.inr (Bool.not_eq_true _ ▸ hset)
          zeroY := fun hne => Bool.noConfusion hne
          nonce := fun _ => ⟨iv, hwith rfl, hvalid, hmode, rfl, rfl, by
            simp only [MbedtlsCcmContext.returns, hcoll.zeroY hstarted]⟩
          noLengths := hcoll.noLengths
          lengths := fun hset' => absurd hset' hset }
  · rw [hrun.started] at hstarted
    exact Bool.noConfusion hstarted

theorem mbedtlsCcmSetLengths_inv (hc : Answers e cipher) (h : CcmInv e tr ctx)
    {totalAdLen plaintextLen tagLen : Nat} (hset : ctx.state.lengthsSet = false)
    (htag : tagLen ≠ 0) :
    CcmInv e (tr ++ [((.setLengths totalAdLen plaintextLen tagLen, cipher),
        mbedtlsCcmSetLengths cipher ctx totalAdLen plaintextLen tagLen)])
      (mbedtlsCcmSetLengths cipher ctx totalAdLen plaintextLen tagLen).ctx := by
  generalize hr : mbedtlsCcmSetLengths cipher ctx totalAdLen plaintextLen tagLen = r
  generalize hev :
    (((.setLengths totalAdLen plaintextLen tagLen, cipher), r) : CcmEvent) = ev
  have hlog : r.log = [] := by
    rw [← hr]
    unfold mbedtlsCcmSetLengths
    split
    · rfl
    · split
      · rfl
      · exact ccmCalculateFirstBlockIfReady_log
  have hsilent : CcmEvent.Silent ev := hev ▸ ⟨rfl, rfl, rfl, hlog⟩
  unfold mbedtlsCcmSetLengths at hr
  split at hr
  · subst hr
    exact h.silent hsilent
  next hbad =>
  split at hr
  · subst hr
    exact h.silent hsilent
  have hvalidTag : ValidTagLen tagLen := by
    unfold ValidTagLen
    omega
  have hwith : r.ret = .ok →
      DeclaredLengths (tr ++ [ev]) totalAdLen plaintextLen tagLen := by
    intro hok
    exact ⟨cipher, r, by simp [hev], hok⟩
  refine ⟨hsilent.ccmFeeds h.1, ?_⟩
  intro herror
  rw [← hr] at herror
  have herror' : ctx.state.error = false := by
    have hbefore := ccmCalculateFirstBlockIfReady_noError herror
    exact hbefore
  rcases h.2 herror' with hcoll | ⟨nonce, hrun⟩
  · by_cases hstarted : ctx.state.started = true
    · obtain ⟨nonce, hstart, hvalid, hmode, hq, hctr, hy⟩ := hcoll.nonce hstarted
      have hready : CcmReady (tr ++ [ev]) { ctx with
          plaintextLen := plaintextLen
          addLen := totalAdLen
          tagLen := tagLen
          processed := 0
          state := { ctx.state with lengthsSet := true } } nonce :=
        { noAd := hsilent.acceptedAd.trans hcoll.noAd
          noInput := hsilent.acceptedInput.trans hcoll.noInput
          noOutput := hsilent.acceptedOutput.trans hcoll.noOutput
          noLog := hsilent.ccmLog.trans hcoll.noLog
          adFirst := hsilent.adFirst hcoll.adFirst
          adState := hcoll.adState
          started := hstarted
          lengthsSet := rfl
          validNonce := hvalid
          mode := hmode
          q := hq
          ctr := hctr
          y := hy
          processed := rfl
          tagLen := hvalidTag }
      have hinv := hready.inv hc fun hok => ⟨hstart.snoc, hwith (hr ▸ hok)⟩
      rw [hr] at hinv
      exact hinv.2 (hr ▸ herror)
    · rw [Bool.not_eq_true] at hstarted
      rw [ccmCalculateFirstBlockIfReady_notReady (Or.inl (by exact hstarted))] at hr
      subst hr
      left
      exact
        { noAd := hsilent.acceptedAd.trans hcoll.noAd
          noInput := hsilent.acceptedInput.trans hcoll.noInput
          noOutput := hsilent.acceptedOutput.trans hcoll.noOutput
          noLog := hsilent.ccmLog.trans hcoll.noLog
          adFirst := hsilent.adFirst hcoll.adFirst
          adState := hcoll.adState
          processed := rfl
          notReady := Or.inl hstarted
          zeroY := hcoll.zeroY
          nonce := fun hstarted' => absurd hstarted' (by
            simp [MbedtlsCcmContext.returns, hstarted])
          noLengths := fun hne => Bool.noConfusion hne
          lengths := fun _ => ⟨hwith rfl, hvalidTag⟩ }
  · rw [hrun.lengthsSet] at hset
    exact Bool.noConfusion hset

/-- The context after `mbedtls_ccm_update_ad` accepted `add`. -/
def adAbsorbed (e : Block 16 → Block 16) (ctx : MbedtlsCcmContext) (add : ByteString) :
    MbedtlsCcmContext :=
  { ctx with
      y := absorbTo e
        (if ctx.state.authDataStarted then ctx.y
          else ctx.y.xorAt 0 [UInt8.ofNat (ctx.addLen / 256), UInt8.ofNat ctx.addLen])
        (ctx.processed + 2) (ctx.addLen + 2) add
      processed := if ctx.processed + add.length = ctx.addLen then 0 else ctx.processed + add.length
      state := { ctx.state with
        authDataStarted := true
        authDataFinished := decide (ctx.processed + add.length = ctx.addLen) } }

theorem mbedtlsCcmUpdateAd_cases (hc : Answers e cipher) {sizeMod : Nat} {add : ByteString}
    (hfresh : ctx.state.authDataStarted = false → ctx.state.authDataFinished = false →
      ctx.addLen > 0 → ctx.processed = 0)
    (hlen : add = [] ∨ ctx.processed + add.length < sizeMod) :
    ((mbedtlsCcmUpdateAd cipher sizeMod ctx add).ret ≠ .ok ∧
        (mbedtlsCcmUpdateAd cipher sizeMod ctx add).log = [] ∧
        ((mbedtlsCcmUpdateAd cipher sizeMod ctx add).ctx = ctx ∨
          (mbedtlsCcmUpdateAd cipher sizeMod ctx add).ctx.state.error = true)) ∨
      (add = [] ∧ mbedtlsCcmUpdateAd cipher sizeMod ctx add = ctx.returns .ok) ∨
      (add ≠ [] ∧ ctx.state.error = false ∧ ctx.state.authDataFinished = false ∧
        ctx.processed + add.length ≤ ctx.addLen ∧
        mbedtlsCcmUpdateAd cipher sizeMod ctx add = (adAbsorbed e ctx add).returns .ok) := by
  have hbad : (ctx.returns .badInput).ret ≠ .ok := by simp [MbedtlsCcmContext.returns]
  unfold mbedtlsCcmUpdateAd
  split
  · exact Or.inl ⟨hbad, rfl, Or.inl rfl⟩
  next hnoError =>
  split
  · next hnil => exact Or.inr (Or.inl ⟨List.length_eq_zero_iff.mp hnil, rfl⟩)
  next hnil =>
  have hne : add ≠ [] := fun h => hnil (by rw [h, List.length_nil])
  have hsize := hlen.resolve_left hne
  split
  · exact Or.inl ⟨hbad, rfl, Or.inl rfl⟩
  next hunfinished =>
  split
  · exact Or.inl ⟨hbad, rfl, Or.inl rfl⟩
  next hfirst =>
  split
  · exact Or.inl ⟨hbad, rfl, Or.inl rfl⟩
  next hlater =>
  rw [Bool.not_eq_true] at hnoError hunfinished
  rw [Nat.mod_eq_of_lt hsize] at hlater
  have hle : ctx.processed + add.length ≤ ctx.addLen := by
    cases hstarted : ctx.state.authDataStarted with
    | false =>
      have hadd : add.length ≤ ctx.addLen := by
        by_contra hgt
        exact hfirst ⟨hstarted, by omega⟩
      rw [hfresh hstarted hunfinished (by omega), Nat.zero_add]
      exact hadd
    | true =>
      by_contra hgt
      exact hlater ⟨hstarted, by omega⟩
  have hbefore : (if ctx.state.authDataStarted = true then ctx
      else { ctx with
        y := ctx.y.xorAt 0 [UInt8.ofNat (ctx.addLen / 256), UInt8.ofNat ctx.addLen]
        state := { ctx.state with authDataStarted := true } }) =
      { ctx with
        y := if ctx.state.authDataStarted then ctx.y
          else ctx.y.xorAt 0 [UInt8.ofNat (ctx.addLen / 256), UInt8.ofNat ctx.addLen]
        state := { ctx.state with authDataStarted := true } } := by
    obtain ⟨_, _, _, _, _, _, _, _, _, _, started, _, _⟩ := ctx
    cases started <;> rfl
  simp only
  rw [hbefore]
  rcases ccmUpdateAdLoop_cases hc add.length { ctx with
      y := if ctx.state.authDataStarted then ctx.y
        else ctx.y.xorAt 0 [UInt8.ofNat (ctx.addLen / 256), UInt8.ofNat ctx.addLen]
      state := { ctx.state with authDataStarted := true } } add
    (Nat.le_refl _) hle hsize with ⟨hret, herror, hlog⟩ | hloop
  · rw [if_pos hret]
    exact Or.inl ⟨hret, hlog, Or.inr herror⟩
  · rw [hloop, if_neg (by simp [MbedtlsCcmContext.returns])]
    refine Or.inr (Or.inr ⟨hne, hnoError, hunfinished, hle, ?_⟩)
    simp only [MbedtlsCcmContext.returns, adAbsorbed]
    by_cases hend : ctx.processed + add.length = ctx.addLen
    · simp [hend]
    · simp [hend, hunfinished]

theorem absorbTo_length {y : Block 16} (ha : a > 0) :
    absorbTo e y 0 (a + 2) (toBE 2 a) = y.xorAt 0 [UInt8.ofNat (a / 256), UInt8.ofNat a] := by
  have hne : toBE 2 a ≠ [] := List.ne_nil_of_length_pos (by rw [length_toBE]; omega)
  rw [absorbTo_piece hne (by rw [length_toBE]; omega), length_toBE, if_neg (by omega)]
  rfl

theorem CcmAdPhase.absorbed (h : CcmAdPhase e tr ctx nonce) (hne : add ≠ [])
    (hle : ctx.processed + add.length ≤ ctx.addLen) {ev : CcmEvent} (had : ev.ad = add)
    (hinput : ev.input = []) (houtput : ev.messageOutput = []) :
    CcmAdPhase e (tr ++ [ev]) (adAbsorbed e ctx add) nonce ∨
      CcmMessagePhase e (tr ++ [ev]) (adAbsorbed e ctx add) nonce := by
  have hinput' : acceptedInput (tr ++ [ev]) = [] := by
    rw [acceptedInput_snoc, h.noInput, hinput]
    rfl
  have houtput' : acceptedOutput (tr ++ [ev]) = [] := by
    rw [acceptedOutput_snoc, h.noOutput, houtput]
    rfl
  have had' : acceptedAd (tr ++ [ev]) = acceptedAd tr ++ add := by
    rw [acceptedAd_snoc, had]
  have hlength : (acceptedAd tr ++ add).length = ctx.processed + add.length := by
    rw [List.length_append, h.processed]
  have hbefore : (if ctx.state.authDataStarted then ctx.y
      else ctx.y.xorAt 0 [UInt8.ofNat (ctx.addLen / 256), UInt8.ofNat ctx.addLen]) =
        absorbTo e (ccmFirst e ctx nonce) 0 (ctx.addLen + 2)
          (toBE 2 ctx.addLen ++ acceptedAd tr) := by
    cases hstarted : ctx.state.authDataStarted with
    | false =>
      obtain ⟨hnil, hy⟩ := h.first hstarted
      rw [hnil, List.append_nil, absorbTo_length h.unfinished.1, hy]
      rfl
    | true => exact h.later hstarted
  have hy : (adAbsorbed e ctx add).y = absorbTo e (ccmFirst e ctx nonce) 0 (ctx.addLen + 2)
      (toBE 2 ctx.addLen ++ (acceptedAd tr ++ add)) := by
    have hfit : 0 + (toBE 2 ctx.addLen ++ acceptedAd tr).length + add.length ≤
        ctx.addLen + 2 := by
      simp only [List.length_append, length_toBE, ← h.processed]
      omega
    have happend := absorbTo_append (f := e) (y := ccmFirst e ctx nonce) hfit
    have hpos : 0 + (toBE 2 ctx.addLen ++ acceptedAd tr).length = ctx.processed + 2 := by
      simp only [List.length_append, length_toBE, ← h.processed]
      omega
    rw [hpos, List.append_assoc] at happend
    show absorbTo e _ _ _ add = _
    rw [hbefore, happend]
  by_cases hend : ctx.processed + add.length = ctx.addLen
  · right
    constructor
    · right
      simp [adAbsorbed, hend]
    · rw [had', hlength]
      exact hend
    · rw [hinput']
      simp [adAbsorbed, hend]
    · rw [hinput']
      exact Nat.zero_le _
    · rw [houtput', hinput']
      rfl
    · rw [hinput']
      have hindex : blockIndex ctx.plaintextLen 0 = 0 := by
        unfold blockIndex
        split <;> rfl
      show ctx.ctr = messageBlock nonce (blockIndex ctx.plaintextLen 0)
      rw [hindex, h.ctr]
    · have hplain : ∀ mode, plaintextOf mode [] [] = [] := by
        intro mode
        unfold plaintextOf
        split <;> rfl
      have hne' : acceptedAd tr ++ add ≠ [] := by simp [hne]
      have hall : ctx.addLen + 2 = (toBE 2 ctx.addLen ++ (acceptedAd tr ++ add)).length := by
        rw [List.length_append, length_toBE, hlength, hend, Nat.add_comm]
      rw [hinput', houtput', hplain, absorbTo_nil, had', hy, hall, absorbTo_all (by omega),
        encodedAd, if_neg hne', hlength, hend]
      rfl
  · left
    constructor
    · exact ⟨h.unfinished.1, by simp [adAbsorbed, hend]⟩
    · exact hinput'
    · exact houtput'
    · rw [had', hlength]
      simp [adAbsorbed, hend]
    · exact h.ctr
    · intro hstarted
      exact Bool.noConfusion hstarted
    · intro _
      rw [had', hy]
      rfl

theorem CcmRunning.absorbedAd (hrun : CcmRunning e tr ctx nonce)
    (hphase : CcmAdPhase e tr ctx nonce) (hne : add ≠ [])
    (hle : ctx.processed + add.length ≤ ctx.addLen) :
    CcmRunning e (tr ++ [((.updateAd add, cipher), (adAbsorbed e ctx add).returns .ok)])
      (adAbsorbed e ctx add) nonce := by
  have hlog : ccmLog (tr ++ [((.updateAd add, cipher), (adAbsorbed e ctx add).returns .ok)]) =
      ccmLog tr := by
    rw [ccmLog_snoc]
    exact List.append_nil _
  have hfeeds := hrun.feeds
  rw [← hlog, hphase.noInput] at hfeeds
  exact ⟨hrun.started, hrun.lengthsSet, hrun.startedWith.snoc, hrun.validNonce,
    hrun.mode, hrun.q, hrun.lengths.snoc, hrun.tagLen, hrun.fits,
    hrun.adFirst.snoc fun _ => hphase.noInput,
    by rw [acceptedInput_snoc, hphase.noInput]; exact hfeeds,
    hphase.absorbed hne hle (by simp [CcmEvent.ad, MbedtlsCcmContext.returns]) rfl rfl⟩

theorem CcmCollecting.not_ready (h : CcmCollecting tr ctx) (hstarted : ctx.state.started = true)
    (hset : ctx.state.lengthsSet = true) : False := by
  rcases h.notReady with hno | hno
  · rw [hstarted] at hno
    exact Bool.noConfusion hno
  · rw [hset] at hno
    exact Bool.noConfusion hno

theorem mbedtlsCcmUpdateAd_inv (hc : Answers e cipher) (h : CcmInv e tr ctx) {sizeMod : Nat}
    (hlen : add = [] ∨ (ctx.state.started = true ∧ ctx.processed + add.length < sizeMod)) :
    CcmInv e (tr ++ [((.updateAd add, cipher), mbedtlsCcmUpdateAd cipher sizeMod ctx add)])
      (mbedtlsCcmUpdateAd cipher sizeMod ctx add).ctx := by
  by_cases herror : ctx.state.error = true
  · have hr : mbedtlsCcmUpdateAd cipher sizeMod ctx add = ctx.returns .badInput := by
      unfold mbedtlsCcmUpdateAd
      rw [if_pos herror]
    rw [hr]
    exact h.silent (CcmEvent.silent_of_ret (by simp [MbedtlsCcmContext.returns]) rfl)
  · rw [Bool.not_eq_true] at herror
    have hfresh : ctx.state.authDataStarted = false → ctx.state.authDataFinished = false →
        ctx.addLen > 0 → ctx.processed = 0 := by
      intro hstarted hunfinished hpos
      rcases h.2 herror with hcoll | ⟨nonce, hrun⟩
      · exact hcoll.processed
      rcases hrun.phase with hphase | hphase
      · rw [hphase.processed, (hphase.first hstarted).1, List.length_nil]
      · rcases hphase.finished with hzero | hfinished
        · omega
        · rw [hunfinished] at hfinished
          exact Bool.noConfusion hfinished
    rcases mbedtlsCcmUpdateAd_cases hc hfresh (hlen.imp_right And.right) with
      ⟨hret, hlog, hctx⟩ | ⟨hnil, hr⟩ | ⟨hne, _, hunfinished, hle, hr⟩
    · have hsilent : CcmEvent.Silent
          ((.updateAd add, cipher), mbedtlsCcmUpdateAd cipher sizeMod ctx add) :=
        CcmEvent.silent_of_ret hret hlog
      rcases hctx with hctx | hctx
      · rw [hctx]
        exact h.silent hsilent
      · refine ⟨hsilent.ccmFeeds h.1, ?_⟩
        intro hnoError
        rw [hctx] at hnoError
        exact Bool.noConfusion hnoError
    · rw [hr]
      apply h.silent
      subst hnil
      exact ⟨by simp [CcmEvent.ad], rfl, rfl, rfl⟩
    · rw [hr]
      have hlog : ccmLog (tr ++ [((.updateAd add, cipher), (adAbsorbed e ctx add).returns .ok)]) =
          ccmLog tr := by
        rw [ccmLog_snoc]
        exact List.append_nil _
      refine ⟨by unfold CcmFeeds; rw [hlog]; exact h.1, ?_⟩
      intro _
      have hstarted := (hlen.resolve_left hne).1
      rcases h.2 herror with hcoll | ⟨nonce, hrun⟩
      · -- the lengths are not known yet
        have hpos : 0 < add.length := List.length_pos_iff.mpr hne
        exfalso
        apply hcoll.not_ready hstarted
        by_contra hno
        rw [Bool.not_eq_true] at hno
        rw [hcoll.noLengths hno] at hle
        omega
      · have hphase : CcmAdPhase e tr ctx nonce := by
          apply hrun.phase.resolve_right
          intro hmessage
          have hpos : 0 < add.length := List.length_pos_iff.mpr hne
          rcases hmessage.finished with hzero | hfinished
          · omega
          · rw [hunfinished] at hfinished
            exact Bool.noConfusion hfinished
        right
        exact ⟨nonce, hrun.absorbedAd hphase hne hle⟩

/-- The context after `mbedtls_ccm_update` accepted `input`. -/
def messageAbsorbed (e : Block 16 → Block 16) (ctx : MbedtlsCcmContext) (nonce input : ByteString) :
    MbedtlsCcmContext :=
  { ctx with
      y := absorbTo e ctx.y ctx.processed ctx.plaintextLen
        (plaintextOf ctx.mode input (encrypt e nonce ctx.processed input))
      ctr := messageBlock nonce (blockIndex ctx.plaintextLen (ctx.processed + input.length))
      processed := ctx.processed + input.length }

theorem CcmMessagePhase.absorbed (h : CcmMessagePhase e tr ctx nonce)
    (hle : ctx.processed + input.length ≤ ctx.plaintextLen) {ev : CcmEvent} (had : ev.ad = [])
    (hinput : ev.input = input) (houtput : ev.messageOutput = encrypt e nonce ctx.processed input) :
    CcmMessagePhase e (tr ++ [ev]) (messageAbsorbed e ctx nonce input) nonce := by
  have hinput' : acceptedInput (tr ++ [ev]) = acceptedInput tr ++ input := by
    rw [acceptedInput_snoc, hinput]
  have had' : acceptedAd (tr ++ [ev]) = acceptedAd tr := by
    rw [acceptedAd_snoc, had, List.append_nil]
  have houtput' : acceptedOutput (tr ++ [ev]) =
      acceptedOutput tr ++ encrypt e nonce ctx.processed input := by
    rw [acceptedOutput_snoc, houtput]
  have hlength : (acceptedInput (tr ++ [ev])).length = ctx.processed + input.length := by
    rw [hinput', List.length_append, h.processed]
  have hout : acceptedOutput (tr ++ [ev]) = encrypt e nonce 0 (acceptedInput (tr ++ [ev])) := by
    rw [houtput', hinput', encrypt_append, h.output, h.processed, Nat.zero_add]
  constructor
  · exact h.finished
  · rw [had']
    exact h.allAd
  · exact hlength.symm
  · rw [hlength]
    exact hle
  · exact hout
  · rw [hlength]
    rfl
  have hplain : (plaintextOf ctx.mode (acceptedInput tr) (acceptedOutput tr)).length =
      ctx.processed := by
    rw [length_plaintextOf _ (by rw [h.output, length_encrypt]), h.processed]
  have hpiece : (plaintextOf ctx.mode input (encrypt e nonce ctx.processed input)).length =
      input.length := length_plaintextOf _ (length_encrypt _ _)
  have hfit : 0 + (plaintextOf ctx.mode (acceptedInput tr) (acceptedOutput tr)).length +
      (plaintextOf ctx.mode input (encrypt e nonce ctx.processed input)).length ≤
        ctx.plaintextLen := by
    rw [hplain, hpiece, Nat.zero_add]
    exact hle
  have happend := absorbTo_append (f := e) (y := chain e (ccmFirst e ctx nonce)
    (blocksOf 16 (encodedAd (acceptedAd tr)))) hfit
  rw [← h.y, hplain, Nat.zero_add] at happend
  rw [had', hinput', houtput', plaintextOf_append]
  exact happend.symm

theorem CcmRunning.absorbedInput (hrun : CcmRunning e tr ctx nonce)
    (hphase : CcmMessagePhase e tr ctx nonce) {outputSize : Nat} {r : CcmResult}
    (hle : ctx.processed + input.length ≤ ctx.plaintextLen) (hret : r.ret = .ok)
    (hout : r.output = encrypt e nonce ctx.processed input)
    (hfeeds : Feeds 16 (messageBlock nonce) ctx.processed r.log (ctx.processed + input.length)) :
    CcmRunning e (tr ++ [((.update input outputSize, cipher), r)])
      (messageAbsorbed e ctx nonce input) nonce := by
  have hbefore := hrun.feeds
  rw [← hphase.processed] at hbefore
  have hafter : Feeds 16 (messageBlock nonce) 0
      (ccmLog (tr ++ [((.update input outputSize, cipher), r)]))
      (acceptedInput (tr ++ [((.update input outputSize, cipher), r)])).length := by
    rw [ccmLog_snoc, acceptedInput_snoc]
    simp only [CcmEvent.input, hret, if_true, List.length_append, ← hphase.processed]
    exact hbefore.append hfeeds
  exact ⟨hrun.started, hrun.lengthsSet, hrun.startedWith.snoc, hrun.validNonce, hrun.mode,
    hrun.q, hrun.lengths.snoc, hrun.tagLen, hrun.fits,
    hrun.adFirst.snoc fun hne => absurd rfl hne, hafter,
    Or.inr (hphase.absorbed hle rfl (by simp [CcmEvent.input, hret])
      (by simp [CcmEvent.messageOutput, hret, hout]))⟩

theorem mbedtlsCcmUpdate_inv (hc : Answers e cipher) (h : CcmInv e tr ctx) {sizeMod : Nat}
    (hsize : 16 ∣ sizeMod) {input : ByteString} {outputSize : Nat} (hlen : input = [] ∨
      (ctx.state.started = true ∧ ctx.state.lengthsSet = true ∧
        (ctx.addLen = 0 ∨ ctx.state.authDataFinished = true) ∧
        ctx.processed + input.length < sizeMod)) :
    CcmInv e (tr ++ [((.update input outputSize, cipher),
        mbedtlsCcmUpdate cipher sizeMod ctx input outputSize)])
      (mbedtlsCcmUpdate cipher sizeMod ctx input outputSize).ctx := by
  generalize hr : mbedtlsCcmUpdate cipher sizeMod ctx input outputSize = r
  generalize hev : (((.update input outputSize, cipher), r) : CcmEvent) = ev
  have hbad : CcmRet.badInput ≠ .ok := by decide
  have hsilent : r.ret ≠ .ok → r.log = [] → CcmEvent.Silent ev := by
    intro hret hlog
    subst hev
    exact CcmEvent.silent_of_ret hret hlog
  unfold mbedtlsCcmUpdate at hr
  split at hr
  · subst hr
    exact h.silent (hsilent hbad rfl)
  next hnoError =>
  rw [Bool.not_eq_true] at hnoError
  split at hr
  · subst hr
    exact h.silent (hsilent hbad rfl)
  next hfits =>
  split at hr
  · subst hr
    exact h.silent (hsilent hbad rfl)
  by_cases hne : input = []
  · subst hne hr hev
    exact h.silent ⟨rfl, rfl, rfl, rfl⟩
  obtain ⟨hstarted, hset, hfinished, hshort⟩ := hlen.resolve_left hne
  rcases h.2 hnoError with hcoll | ⟨nonce, hrun⟩
  · exact absurd (hcoll.not_ready hstarted hset) id
  have hphase : CcmMessagePhase e tr ctx nonce := by
    apply hrun.phase.resolve_left
    intro had
    obtain ⟨hpos, hunfinished⟩ := had.unfinished
    rcases hfinished with hzero | hfinished
    · omega
    · rw [hunfinished] at hfinished
      exact Bool.noConfusion hfinished
  have htag : ctx.tagLen ≠ 0 := by
    have := hrun.tagLen.1
    omega
  rw [Nat.mod_eq_of_lt hshort] at hfits
  have hle : ctx.processed + input.length ≤ ctx.plaintextLen := by
    by_contra hgt
    exact hfits ⟨htag, by omega⟩
  have hend : ∀ p, ctx.processed < p → p ≤ ctx.processed + input.length →
      (p % 16 = 0 ∨ p % sizeMod = ctx.plaintextLen ↔ p % 16 = 0 ∨ p = ctx.plaintextLen) := by
    intro p _ hp
    have hmod : p % sizeMod = p := Nat.mod_eq_of_lt (by omega)
    rw [hmod]
  have hloop := ccmUpdateLoop_cases hc hrun.validNonce hsize input.length ctx
    ctx.processed input (Nat.le_refl _) hrun.mode hrun.q
    (Nat.mod_eq_of_lt (by omega)).symm (by rw [hphase.ctr, hphase.processed]) hle
    hend
  rw [hr, Nat.mod_eq_of_lt hshort] at hloop
  have hbefore := hrun.feeds
  have hfits' := hrun.fits
  rw [← hphase.processed] at hbefore
  rw [hrun.q] at hfits'
  have hlog : ccmLog (tr ++ [ev]) = ccmLog tr ++ r.log := by
    rw [ccmLog_snoc, ← hev]
  rcases hloop with ⟨hret, herror, b, hb, hfeeds⟩ | ⟨hret, hctx, hout, hfeeds⟩
  · refine ⟨⟨nonce, b, hrun.validNonce, by omega, ?_⟩, ?_⟩
    · rw [hlog]
      exact hbefore.append hfeeds
    · intro hnoError'
      rw [herror] at hnoError'
      exact Bool.noConfusion hnoError'
  · have hevent : CcmRunning e (tr ++ [ev]) r.ctx nonce := by
      rw [← hev, hctx]
      exact hrun.absorbedInput hphase hle hret hout hfeeds
    refine ⟨⟨nonce, _, hrun.validNonce, ?_, hevent.feeds⟩, fun _ => ?_⟩
    · rw [acceptedInput_snoc, ← hev]
      simp only [CcmEvent.input, hret, if_true, List.length_append, ← hphase.processed]
      omega
    · exact Or.inr ⟨nonce, hevent⟩

end Steps

/-! ## Runs -/

section Runs

variable {sizeMod : Nat} {tr : List CcmEvent} {ctx : MbedtlsCcmContext}

theorem CcmInv.init : CcmInv e [] .init := by
  refine ⟨⟨List.replicate 13 0, 0, ⟨by decide, by decide⟩, by decide, .nil⟩, ?_⟩
  intro _
  left
  exact
    { noAd := rfl
      noInput := rfl
      noOutput := rfl
      noLog := rfl
      adFirst := History.each_nil
      adState := ⟨rfl, rfl⟩
      processed := rfl
      notReady := Or.inl rfl
      zeroY := fun _ => rfl
      nonce := fun h => Bool.noConfusion h
      noLengths := fun _ => rfl
      lengths := fun h => Bool.noConfusion h }

theorem CcmInv.run (hsize : 16 ∣ sizeMod)
    (hrun : Machine.Run (Machine.restrict (ccmMachine sizeMod) (CcmOrder sizeMod)) .init tr ctx)
    (hcipher : ∀ ev ∈ tr, Answers e ev.1.2) : CcmInv e tr ctx := by
  have hinit : CcmInv e [] .init := CcmInv.init
  apply Machine.Run.invariant (I := CcmInv e) (P := fun ev => Answers e ev.1.2) hinit _ hrun hcipher
  intro tr ctx a ctx' r h hc hstep
  obtain ⟨horder, hstep⟩ := Machine.restrict_eq_some.mp hstep
  obtain ⟨call, cipher⟩ := a
  obtain ⟨rfl, rfl⟩ := hstep
  cases call with
  | starts mode iv => exact mbedtlsCcmStarts_inv hc h horder.1 horder.2
  | setLengths a p t => exact mbedtlsCcmSetLengths_inv hc h horder.1 horder.2
  | updateAd add => exact mbedtlsCcmUpdateAd_inv hc h horder
  | update input outputSize => exact mbedtlsCcmUpdate_inv hc h hsize horder

theorem xor_toList (x y : Block 16) : Bytes.xor x.toList y.toList = (x.xor y).toList :=
  (Block.toList_xor x y).symm

theorem CcmMessagePhase.mac_eq (hphase : CcmMessagePhase e tr ctx nonce)
    (hall : (acceptedInput tr).length = ctx.plaintextLen) :
    ctx.y = mac e nonce (acceptedAd tr)
      (plaintextOf ctx.mode (acceptedInput tr) (acceptedOutput tr)) ctx.tagLen := by
  have hlen : (plaintextOf ctx.mode (acceptedInput tr) (acceptedOutput tr)).length =
      ctx.plaintextLen := by
    rw [length_plaintextOf _ (by rw [hphase.output, length_encrypt]), hall]
  rw [CounterCbcMac.mac_eq, hlen, hphase.allAd, ← absorbTo_all (by omega), hlen]
  exact hphase.y

theorem CcmRunning.finishCounter (hrun : CcmRunning e tr ctx nonce)
    (hphase : CcmMessagePhase e tr ctx nonce) :
    ctx.ctr.store (16 - ctx.q) (List.replicate ctx.q 0) = counterBlock nonce 0 := by
  rw [hrun.q, hphase.ctr]
  exact finish_counterBlock hrun.validNonce _

theorem mbedtlsCcmFinish_enforced (h : CcmInv e tr ctx) (hc : Answers e cipher) {tagLen : Nat}
    (hok : (mbedtlsCcmFinish cipher ctx tagLen).ret = .ok) :
    CcmEnforced e tr tagLen (mbedtlsCcmFinish cipher ctx tagLen).output := by
  generalize hr : mbedtlsCcmFinish cipher ctx tagLen = r at hok ⊢
  have hbad : ∀ ret, ret ≠ CcmRet.ok → ctx.returns ret = r → CcmEnforced e tr tagLen r.output := by
    intro ret hret heq
    subst heq
    exact absurd hok hret
  unfold mbedtlsCcmFinish at hr
  split at hr
  · exact hbad _ (by decide) hr
  next hnoError =>
  split at hr
  · exact hbad _ (by decide) hr
  next hstarted =>
  split at hr
  · exact hbad _ (by decide) hr
  next hset =>
  split at hr
  · exact hbad _ (by decide) hr
  next hfinished =>
  split at hr
  · exact hbad _ (by decide) hr
  next hcomplete =>
  split at hr
  · exact hbad _ (by decide) hr
  next htagLen =>
  rw [Bool.not_eq_true] at hnoError
  rw [Bool.not_eq_false] at hstarted hset
  rcases h.2 hnoError with hcoll | ⟨nonce, hrun⟩
  · exact absurd (hcoll.not_ready hstarted hset) id
  have hphase : CcmMessagePhase e tr ctx nonce := by
    apply hrun.phase.resolve_left
    intro had
    exact hfinished had.unfinished
  have hall : (acceptedInput tr).length = ctx.plaintextLen := by
    have hbound := hphase.bound
    have hproc := hphase.processed
    by_contra hne
    exact hcomplete ⟨by omega, by omega⟩
  have hy := hphase.mac_eq hall
  have hctr := hrun.finishCounter hphase
  refine ⟨ctx.mode, nonce, ctx.addLen, ctx.plaintextLen, hrun.startedWith, ?_, hphase.allAd,
    hall, hrun.adFirst, hphase.output, ?_⟩
  · rw [not_not.mp htagLen]
    exact hrun.lengths
  · simp only [hctr] at hr
    rcases mbedtlsCcmCrypt_cases hc { ctx with ctr := counterBlock nonce 0 } 0 ctx.y.toList with
      ⟨code, hcrypt⟩ | hcrypt
    · rw [hcrypt, if_pos (by simp [MbedtlsCcmContext.fails])] at hr
      subst hr
      simp [MbedtlsCcmContext.fails] at hok
    · rw [hcrypt, if_neg (by simp [MbedtlsCcmContext.returns])] at hr
      subst hr
      rw [hy, ← not_not.mp htagLen]
      rfl

end Runs

/-- **CCM enforces the declared lengths and the order.** If `mbedtls_ccm_finish` returns 0, the data
has the declared lengths and the tag is that of SP 800-38C. -/
theorem ccm_enforces (e : Block 16 → Block 16) (sizeMod : Nat) (hsize : 16 ∣ sizeMod)
    (tr : List CcmEvent) (ctx : MbedtlsCcmContext)
    (hrun : Machine.Run (Machine.restrict (ccmMachine sizeMod) (CcmOrder sizeMod)) .init tr ctx)
    (hcipher : ∀ ev ∈ tr, Answers e ev.1.2) (cipher : BlockCipher) (hc : Answers e cipher)
    (tagLen : Nat) (hok : (mbedtlsCcmFinish cipher ctx tagLen).ret = .ok) :
    CcmEnforced e tr tagLen (mbedtlsCcmFinish cipher ctx tagLen).output := by
  have hinv : CcmInv e tr ctx := CcmInv.run hsize hrun hcipher
  exact mbedtlsCcmFinish_enforced hinv hc hok

def nextBytes (b : Block 16) : Block 16 := fun i => b (i + 1) + 1

theorem answers_nextBytes : Answers nextBytes (fun b => .ok (nextBytes b)) := by
  intro x y h
  cases h
  rfl

theorem ccm_enforces_witness :
    ∃ tr ctx, Machine.Run (Machine.restrict (ccmMachine (2 ^ 32)) (CcmOrder (2 ^ 32))) .init
        tr ctx ∧
      tr.map (·.1.1) = [.starts .encrypt (List.replicate 13 0), .setLengths 1 2 4,
        .updateAd [7], .update [8, 9] 2] ∧
      CcmEnforced nextBytes tr 4 (mbedtlsCcmFinish (fun b => .ok (nextBytes b)) ctx 4).output := by
  have hnil : Machine.Run (Machine.restrict (ccmMachine (2 ^ 32)) (CcmOrder (2 ^ 32))) .init
    [] .init := .nil
  have hrun := (((hnil.snoc
    (a := (.starts .encrypt (List.replicate 13 0), fun b => .ok (nextBytes b))) rfl).snoc
    (a := (.setLengths 1 2 4, fun b => .ok (nextBytes b))) rfl).snoc
    (a := (.updateAd [7], fun b => .ok (nextBytes b))) rfl).snoc
    (a := (.update [8, 9] 2, fun b => .ok (nextBytes b))) rfl
  refine ⟨_, _, hrun, rfl, ?_⟩
  apply ccm_enforces nextBytes (2 ^ 32) (by decide) _ _ hrun _ _ answers_nextBytes 4
  · decide +kernel
  · intro ev hev
    simp only [List.mem_append, List.mem_singleton, List.not_mem_nil, false_or] at hev
    rcases hev with ((rfl | rfl) | rfl) | rfl <;> exact answers_nextBytes

/-- **Counterexample.** A message byte before the additional data, and one byte of two declared:
every call returns 0. -/
theorem ccm_message_before_ad :
    ∃ tr ctx, Machine.Run (ccmMachine (2 ^ 32)) .init tr ctx ∧
      tr.map (·.1.1) = [.starts .encrypt (List.replicate 13 0), .setLengths 2 1 4,
        .update [8] 1, .updateAd [7], .update [9] 1] ∧
      (∀ ev ∈ tr, Answers nextBytes ev.1.2 ∧ ev.2.ret = .ok) ∧
      (mbedtlsCcmFinish (fun b => .ok (nextBytes b)) ctx 4).ret = .ok ∧
      ¬ CcmEnforced nextBytes tr 4
        (mbedtlsCcmFinish (fun b => .ok (nextBytes b)) ctx 4).output := by
  have hnil : Machine.Run (ccmMachine (2 ^ 32)) .init [] .init := .nil
  have hrun := ((((hnil.snoc
    (a := (.starts .encrypt (List.replicate 13 0), fun b => .ok (nextBytes b))) rfl).snoc
    (a := (.setLengths 2 1 4, fun b => .ok (nextBytes b))) rfl).snoc
    (a := (.update [8] 1, fun b => .ok (nextBytes b))) rfl).snoc
    (a := (.updateAd [7], fun b => .ok (nextBytes b))) rfl).snoc
    (a := (.update [9] 1, fun b => .ok (nextBytes b))) rfl
  refine ⟨_, _, hrun, rfl, ?_, ?_, ?_⟩
  · intro ev hev
    simp only [List.mem_append, List.mem_singleton, List.not_mem_nil, false_or] at hev
    rcases hev with (((rfl | rfl) | rfl) | rfl) | rfl
    all_goals exact ⟨answers_nextBytes, by decide +kernel⟩
  · decide +kernel
  · rintro ⟨mode, nonce, a, p, _, ⟨cipher, r, hmem, _⟩, had, _⟩
    simp only [List.mem_append, List.mem_singleton, List.not_mem_nil, false_or, Prod.mk.injEq,
      CcmCall.setLengths.injEq, reduceCtorEq, false_and, or_false] at hmem
    obtain ⟨⟨⟨rfl, _⟩, _⟩, _⟩ := hmem
    revert had
    decide +kernel

end TfPsaCrypto
