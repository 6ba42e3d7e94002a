import Mathlib.Data.Nat.ModEq
import TfPsaCrypto.Builtin.CcmProtocol
import TfPsaCrypto.Builtin.ChachapolyStream
import TfPsaCrypto.Builtin.GcmStream

/-!
# Key stream blocks are used once

For GCM, CCM, CCM* without tag and ChaCha20-Poly1305: which runs of update calls feed each counter
block for one block of the message only.
-/

namespace TfPsaCrypto

open Bytes Blocks CounterCbcMac CounterStream

/-! ## CCM with a tag -/

variable {ctx : MbedtlsCcmContext}

section Ccm

variable {e : Block 16 → Block 16} {nonce : ByteString}

theorem counterBlock_congr {v w : Nat}
    (h : v % 256 ^ lengthSize nonce = w % 256 ^ lengthSize nonce) :
    counterBlock nonce v = counterBlock nonce w := by
  have hbytes : toBE (lengthSize nonce) v = toBE (lengthSize nonce) w := by
    unfold toBE
    rw [← toLE_mod, h, toLE_mod]
  unfold counterBlock
  rw [hbytes]

theorem messageBlock_inj (hn : ValidNonce nonce) {i j : Nat} :
    messageBlock nonce i = messageBlock nonce j ↔
      i % 256 ^ lengthSize nonce = j % 256 ^ lengthSize nonce := by
  constructor
  · intro h
    exact Nat.ModEq.add_left_cancel' 1 (counterBlock_inj hn h)
  · intro h
    exact counterBlock_congr (Nat.ModEq.add_left 1 h)

theorem nodup_messageBlocks_tag (hn : ValidNonce nonce) {b : Nat}
    (hb : b < 256 ^ lengthSize nonce) :
    ((List.range ((b + (16 - 1)) / 16)).map (messageBlock nonce) ++
      [counterBlock nonce 0]).Nodup := by
  have hpos : 0 < 256 ^ lengthSize nonce := Nat.pow_pos (by omega)
  generalize hm : 256 ^ lengthSize nonce = m at hb hpos
  rw [List.nodup_append]
  refine ⟨?_, by simp, ?_⟩
  · rw [nodup_range_iff hpos fun i j => hm ▸ messageBlock_inj hn]
    omega
  intro c hc c' hc' heq
  obtain ⟨i, hi, rfl⟩ := List.mem_map.mp hc
  rw [List.mem_range] at hi
  rw [List.mem_singleton.mp hc'] at heq
  have hmod := counterBlock_inj hn heq
  rw [hm, Nat.zero_mod, Nat.mod_eq_of_lt (by omega)] at hmod
  omega

theorem mbedtlsCcmFinish_log {tr : List CcmEvent} (h : CcmInv e tr ctx) (cipher : BlockCipher)
    (tagLen : Nat) :
    (mbedtlsCcmFinish cipher ctx tagLen).log = [] ∨
      ∃ nonce, CcmRunning e tr ctx nonce ∧
        (mbedtlsCcmFinish cipher ctx tagLen).log = [⟨counterBlock nonce 0, 0⟩] := by
  unfold mbedtlsCcmFinish
  split
  · exact Or.inl rfl
  next hnoError =>
  split
  · exact Or.inl rfl
  next hstarted =>
  split
  · exact Or.inl rfl
  next hset =>
  split
  · exact Or.inl rfl
  next hfinished =>
  split
  · exact Or.inl rfl
  split
  · exact Or.inl rfl
  rw [Bool.not_eq_true] at hnoError
  rw [Bool.not_eq_false] at hstarted hset
  rcases h.2 hnoError with hcoll | ⟨nonce, hrun⟩
  · exact absurd (hcoll.not_ready hstarted hset) id
  right
  refine ⟨nonce, hrun, ?_⟩
  have hphase : CcmMessagePhase e tr ctx nonce := by
    apply hrun.phase.resolve_left
    intro had
    exact hfinished had.unfinished
  have hctr : ctx.ctr.store (16 - ctx.q) (List.replicate ctx.q 0) = counterBlock nonce 0 := by
    rw [hrun.q, hphase.ctr]
    exact finish_counterBlock hrun.validNonce _
  have hlog : ∀ ctx : MbedtlsCcmContext, (mbedtlsCcmCrypt cipher ctx 0 ctx.y.toList).log =
      [⟨ctx.ctr, 0⟩] := by
    intro ctx
    unfold mbedtlsCcmCrypt
    split <;> rfl
  simp only [hctr]
  split <;> exact hlog { ctx with ctr := counterBlock nonce 0 }

theorem ccm_noReuse {sizeMod : Nat} (hsize : 16 ∣ sizeMod) {tr : List CcmEvent}
    (hrun : Machine.Run (Machine.restrict (ccmMachine sizeMod) (CcmOrder sizeMod)) .init tr ctx)
    (hcipher : ∀ ev ∈ tr, Answers e ev.1.2) (cipher : BlockCipher) (tagLen : Nat) :
    NoReuse (ccmLog tr ++ (mbedtlsCcmFinish cipher ctx tagLen).log) := by
  have hinv : CcmInv e tr ctx := CcmInv.run hsize hrun hcipher
  rcases mbedtlsCcmFinish_log hinv cipher tagLen with hlog | ⟨nonce, hrunning, hlog⟩
  · rw [hlog, List.append_nil]
    obtain ⟨nonce, b, hn, hb, hfeeds⟩ := hinv.1
    rw [hfeeds.noReuse_iff (by omega)]
    exact (List.nodup_append.mp (nodup_messageBlocks_tag hn hb)).1
  · rw [hlog, hrunning.feeds.noReuse_snoc_iff (by omega)]
    apply nodup_messageBlocks_tag hrunning.validNonce
    have hfits := hrunning.fits
    rw [hrunning.q] at hfits
    rcases hrunning.phase with hphase | hphase
    · rw [hphase.noInput]
      exact Nat.pow_pos (by omega)
    · have hbound := hphase.bound
      omega

end Ccm

/-! ## CCM* without tag -/

section CcmStar

def ccmStarSetIv (cipher : BlockCipher) (ctx : MbedtlsCcmContext) (mode : CcmMode)
    (iv : ByteString) : CcmResult :=
  let lengths := mbedtlsCcmSetLengths cipher ctx 0 0 0
  if lengths.ret ≠ .ok then lengths
  else mbedtlsCcmStarts cipher lengths.ctx mode iv

/-- The CCM* part of `mbedtls_cipher_update`, as a machine. -/
def ccmStarMachine (sizeMod : Nat) :
    Machine.StepFn MbedtlsCcmContext (ByteString × BlockCipher) CcmResult :=
  fun ctx a =>
    let r := mbedtlsCcmUpdate a.2 sizeMod ctx a.1 a.1.length
    some (r.ctx, r)

def ccmStarLength (tr : List ((ByteString × BlockCipher) × CcmResult)) : Nat :=
  (tr.map fun ev => if ev.2.ret = .ok then ev.1.1.length else 0).sum

def ccmStarLog (tr : List ((ByteString × BlockCipher) × CcmResult)) : List (Feed (Block 16)) :=
  tr.flatMap (·.2.log)

variable {e : Block 16 → Block 16} {nonce : ByteString} {sizeMod : Nat}

def CipherDecides (cipher : BlockCipher) (r : CcmResult) : Prop :=
  r.ret = .ok ∨ ∃ x code, cipher x = .error code ∧ r.ret = .cipher code

section CipherDecides

variable {cipher : BlockCipher}

theorem cipherDecides_encryptY (ctx : MbedtlsCcmContext) :
    CipherDecides cipher (encryptY cipher ctx) := by
  unfold encryptY
  cases h : cipher ctx.y with
  | error code => exact Or.inr ⟨ctx.y, code, h, rfl⟩
  | ok y => exact Or.inl rfl

theorem cipherDecides_crypt (ctx : MbedtlsCcmContext) (offset : Nat) (input : ByteString) :
    CipherDecides cipher (mbedtlsCcmCrypt cipher ctx offset input) := by
  unfold mbedtlsCcmCrypt
  cases h : cipher ctx.ctr with
  | error code => exact Or.inr ⟨ctx.ctr, code, h, rfl⟩
  | ok tmp => exact Or.inl rfl

theorem cipherDecides_authenticate (ctx : MbedtlsCcmContext) (offset : Nat) (data : ByteString)
    (blockEnd : Bool) : CipherDecides cipher (ccmAuthenticate cipher ctx offset data blockEnd) := by
  cases blockEnd with
  | false => exact Or.inl rfl
  | true => exact cipherDecides_encryptY _

theorem cipherDecides_round (ctx : MbedtlsCcmContext) (offset : Nat) (input : ByteString) :
    CipherDecides cipher (ccmUpdateRound cipher ctx offset input) := by
  have hpiece : ∀ blockEnd, CipherDecides cipher
      (if ctx.mode.isEncrypt then ccmEncryptPiece cipher ctx offset input blockEnd
        else if ctx.mode.isDecrypt then ccmDecryptPiece cipher ctx offset input blockEnd
        else ctx.returns .ok) := by
    intro blockEnd
    split
    · unfold ccmEncryptPiece
      simp only
      split
      · exact cipherDecides_authenticate _ _ _ _
      · exact cipherDecides_crypt _ _ _
    · split
      · unfold ccmDecryptPiece
        simp only
        split
        · exact cipherDecides_crypt _ _ _
        · exact cipherDecides_authenticate _ _ _ blockEnd
      · exact Or.inl rfl
  unfold ccmUpdateRound
  simp only
  generalize decide (input.length + offset = 16 ∨ ctx.processed = ctx.plaintextLen) = blockEnd
  specialize hpiece blockEnd
  generalize (if ctx.mode.isEncrypt then ccmEncryptPiece cipher ctx offset input blockEnd
    else if ctx.mode.isDecrypt then ccmDecryptPiece cipher ctx offset input blockEnd
    else ctx.returns .ok) = crypted at hpiece ⊢
  split
  · exact hpiece
  · split <;> exact hpiece

theorem cipherDecides_loop (sizeMod : Nat) :
    ∀ fuel ctx input, CipherDecides cipher (ccmUpdateLoop cipher sizeMod fuel ctx input) := by
  intro fuel
  induction fuel with
  | zero =>
    intro ctx input
    exact Or.inl rfl
  | succ fuel ih =>
    intro ctx input
    unfold ccmUpdateLoop
    split
    · exact Or.inl rfl
    · simp only
      split
      · exact cipherDecides_round _ _ _
      · exact ih _ _

end CipherDecides

/-- The context at position `pos` of a message without tag. -/
structure CcmStarAt (nonce : ByteString) (sizeMod pos : Nat) (ctx : MbedtlsCcmContext) : Prop where
  noError : ctx.state.error = false
  mode : ctx.mode.isEncrypt = true ∨ ctx.mode.isDecrypt = true
  tagLen : ctx.tagLen = 0
  plaintextLen : ctx.plaintextLen = 0
  q : ctx.q = lengthSize nonce
  processed : ctx.processed = pos % sizeMod
  ctr : ctx.ctr = messageBlock nonce (pos / 16)

theorem ccmCalculateFirstBlockIfReady_star {cipher : BlockCipher}
    (hstarted : ctx.state.started = true) (hset : ctx.state.lengthsSet = true)
    (htag : ctx.tagLen = 0) (hmode : ctx.mode.isStar = true) :
    ccmCalculateFirstBlockIfReady cipher ctx = { ctx with plaintextLen := 0 }.returns .ok := by
  unfold ccmCalculateFirstBlockIfReady
  rw [if_neg (by simp [hstarted, hset]), if_pos htag, if_pos hmode]

theorem ccmStarSetIv_at {cipher : BlockCipher} {mode : CcmMode} (hmode : mode.isStar = true)
    (hn : ValidNonce nonce) :
    CcmStarAt nonce sizeMod 0 (ccmStarSetIv cipher .init mode nonce).ctx ∧
      (ccmStarSetIv cipher .init mode nonce).log = [] := by
  have hiv : ¬ (nonce.length < 7 ∨ nonce.length > 13) := by
    obtain ⟨hlo, hhi⟩ := hn
    omega
  have hq : 16 - 1 - nonce.length = lengthSize nonce := rfl
  have hlengths : mbedtlsCcmSetLengths cipher .init 0 0 0 =
      { MbedtlsCcmContext.init with
          state := { CcmState.clear with lengthsSet := true } }.returns .ok := rfl
  unfold ccmStarSetIv
  rw [hlengths, if_neg (by simp [MbedtlsCcmContext.returns])]
  unfold mbedtlsCcmStarts
  rw [if_neg hiv]
  simp only [hq, starts_counterBlock hn]
  rw [ccmCalculateFirstBlockIfReady_star rfl rfl rfl hmode]
  refine ⟨?_, rfl⟩
  constructor
  · rfl
  · cases mode with
    | starDecrypt => exact Or.inr rfl
    | starEncrypt => exact Or.inl rfl
    | _ => exact Bool.noConfusion hmode
  · rfl
  · rfl
  · rfl
  · exact (Nat.zero_mod sizeMod).symm
  · rfl

theorem CcmStarAt.update {cipher : BlockCipher} {pos : Nat} (h : CcmStarAt nonce sizeMod pos ctx)
    (hc : Answers e cipher) (hn : ValidNonce nonce) (hsize : 16 ∣ sizeMod) (input : ByteString)
    (hcode : ∀ code, (mbedtlsCcmUpdate cipher sizeMod ctx input input.length).ret ≠ .cipher code) :
    (mbedtlsCcmUpdate cipher sizeMod ctx input input.length).ret = .ok ∧
      CcmStarAt nonce sizeMod (pos + input.length)
        (mbedtlsCcmUpdate cipher sizeMod ctx input input.length).ctx ∧
      Feeds 16 (messageBlock nonce) pos
        (mbedtlsCcmUpdate cipher sizeMod ctx input input.length).log (pos + input.length) := by
  have hloop : mbedtlsCcmUpdate cipher sizeMod ctx input input.length =
      ccmUpdateLoop cipher sizeMod input.length ctx input := by
    unfold mbedtlsCcmUpdate
    rw [if_neg (by simp [h.noError]), if_neg (by simp [h.tagLen]), if_neg (by omega)]
  have hindex : ∀ p ≤ pos + input.length, blockIndex (pos + input.length + 1) p = p / 16 :=
    fun p hp => blockIndex_of_ne (by omega)
  rw [hloop] at hcode ⊢
  -- the context has no end of the message: where `processed` is 0, the block is full
  have hcases := ccmUpdateLoop_cases hc hn hsize input.length ctx pos input (Nat.le_refl _) h.mode
    h.q h.processed (by rw [hindex pos (by omega), h.ctr])
    (Nat.le_succ (pos + input.length)) (by
      intro p _ hp
      rw [h.plaintextLen]
      constructor
      · rintro (hfull | hzero)
        · exact Or.inl hfull
        · left
          exact Nat.mod_eq_zero_of_dvd (hsize.trans (Nat.dvd_of_mod_eq_zero hzero))
      · rintro (hfull | hend)
        · exact Or.inl hfull
        · omega)
  rcases hcases with ⟨hret, _⟩ | ⟨hret, hctx, _, hfeeds⟩
  · exfalso
    rcases cipherDecides_loop sizeMod input.length ctx input with hok | ⟨_, code, _, hbad⟩
    · exact hret hok
    · exact hcode code hbad
  · refine ⟨hret, ?_, hfeeds⟩
    rw [hctx]
    exact ⟨h.noError, h.mode, h.tagLen, h.plaintextLen, h.q, rfl, by rw [hindex _ (by omega)]⟩

theorem ccmStar_noReuse_iff {cipher : BlockCipher} {mode : CcmMode} {ctx : MbedtlsCcmContext}
    {tr : List ((ByteString × BlockCipher) × CcmResult)} (hsize : 16 ∣ sizeMod)
    (hmode : mode.isStar = true) (hn : ValidNonce nonce)
    (hrun : Machine.Run (ccmStarMachine sizeMod) (ccmStarSetIv cipher .init mode nonce).ctx tr ctx)
    (hcipher : ∀ ev ∈ tr, Answers e ev.1.2 ∧ ∀ code, ev.2.ret ≠ .cipher code) :
    NoReuse (ccmStarLog tr) ↔ ccmStarLength tr ≤ 16 * 256 ^ lengthSize nonce := by
  have hinit : CcmStarAt nonce sizeMod (ccmStarLength [])
        (ccmStarSetIv cipher .init mode nonce).ctx ∧
      Feeds 16 (messageBlock nonce) 0 (ccmStarLog []) (ccmStarLength []) :=
    ⟨(ccmStarSetIv_at hmode hn).1, .nil⟩
  have hinv := Machine.Run.invariant (I := fun tr ctx =>
      CcmStarAt nonce sizeMod (ccmStarLength tr) ctx ∧
        Feeds 16 (messageBlock nonce) 0 (ccmStarLog tr) (ccmStarLength tr))
    (P := fun ev => Answers e ev.1.2 ∧ ∀ code, ev.2.ret ≠ .cipher code) hinit ?_ hrun hcipher
  · obtain ⟨_, hfeeds⟩ := hinv
    have hpos : 0 < 256 ^ lengthSize nonce := Nat.pow_pos (by omega)
    rw [hfeeds.noReuse_iff (by omega), nodup_range_iff hpos fun i j => messageBlock_inj hn]
    omega
  · intro tr ctx a ctx' r h hp hstep
    obtain ⟨hat, hfeeds⟩ := h
    obtain ⟨hc, hcode⟩ := hp
    obtain ⟨rfl, rfl⟩ := hstep
    obtain ⟨hok, hat', hfeeds'⟩ := hat.update hc hn hsize a.1 hcode
    have hlength : ccmStarLength (tr ++ [(a, mbedtlsCcmUpdate a.2 sizeMod ctx a.1 a.1.length)]) =
        ccmStarLength tr + a.1.length := by
      simp [ccmStarLength, hok]
    have hlog : ccmStarLog (tr ++ [(a, mbedtlsCcmUpdate a.2 sizeMod ctx a.1 a.1.length)]) =
        ccmStarLog tr ++ (mbedtlsCcmUpdate a.2 sizeMod ctx a.1 a.1.length).log := by
      simp [ccmStarLog]
    rw [hlength, hlog]
    exact ⟨hat', hfeeds.append hfeeds'⟩

end CcmStar

/-! ## All modes -/

/-- **No block of the key stream is used twice** in a GCM message, in a CCM message with the calls
in order, and in a CCM* or ChaCha20-Poly1305 message up to the period of the counter. -/
theorem keyStream_used_once (sizeMod : Nat) (hsize : 16 ∣ sizeMod) :
    (∀ (gcmMult : Block 16 → Block 16) cipher ctx₀ ctx mode iv tr,
      (mbedtlsGcmStarts cipher gcmMult ctx₀ mode iv).ret = .ok →
      Machine.Run (gcmMachine gcmMult) (mbedtlsGcmStarts cipher gcmMult ctx₀ mode iv).ctx tr ctx →
      (∀ ev ∈ tr, ∀ code, ev.2.ret ≠ .cipher code) →
      NoReuse ((mbedtlsGcmStarts cipher gcmMult ctx₀ mode iv).log ++ gcmLog tr)) ∧
    (∀ (e : Block 16 → Block 16) cipher ctx tagLen tr,
      Machine.Run (Machine.restrict (ccmMachine sizeMod) (CcmOrder sizeMod)) .init tr ctx →
      (∀ ev ∈ tr, Answers e ev.1.2) →
      NoReuse (ccmLog tr ++ (mbedtlsCcmFinish cipher ctx tagLen).log)) ∧
    (∀ (e : Block 16 → Block 16) cipher ctx mode nonce tr, mode.isStar = true →
      ValidNonce nonce →
      Machine.Run (ccmStarMachine sizeMod) (ccmStarSetIv cipher .init mode nonce).ctx tr ctx →
      (∀ ev ∈ tr, Answers e ev.1.2 ∧ ∀ code, ev.2.ret ≠ .cipher code) →
      (NoReuse (ccmStarLog tr) ↔ ccmStarLength tr ≤ 16 * 256 ^ lengthSize nonce)) ∧
    (∀ (σ : Type) (poly1305 : Poly1305Functions σ) ctx₀ ctx nonce mode tr,
      Machine.Run (chachapolyMachine σ) (mbedtlsChachapolyStarts poly1305 ctx₀ nonce mode).ctx
        tr ctx →
      (∀ ev ∈ tr, ∀ code, ev.2.ret ≠ .poly1305 code) →
      (NoReuse ((mbedtlsChachapolyStarts poly1305 ctx₀ nonce mode).log ++ chachapolyLog tr) ↔
        chachapolyLength tr ≤ 64 * (2 ^ 32 - 1))) := by
  refine ⟨?_, ?_, ?_, ?_⟩
  · intro gcmMult cipher ctx₀ ctx mode iv tr hstarts hrun hcipher
    exact gcm_noReuse hstarts hrun hcipher
  · intro e cipher ctx tagLen tr hrun hcipher
    exact ccm_noReuse hsize hrun hcipher cipher tagLen
  · intro e cipher ctx mode nonce tr hmode hn hrun hcipher
    exact ccmStar_noReuse_iff hsize hmode hn hrun hcipher
  · intro σ poly1305 ctx₀ ctx nonce mode tr hrun hpoly
    exact chachapoly_noReuse_iff hrun hpoly

def noPoly1305 : Poly1305Functions Unit where
  starts _ _ := .ok ()
  update _ _ := .ok ()
  finish _ := .ok ((), [])

theorem mbedtlsCcmUpdate_ne_cipher {cipher : BlockCipher}
    (hcipher : ∀ x code, cipher x ≠ .error code) (sizeMod : Nat) (htag : ctx.tagLen = 0)
    (input : ByteString) (code : Int) :
    (mbedtlsCcmUpdate cipher sizeMod ctx input input.length).ret ≠ .cipher code := by
  unfold mbedtlsCcmUpdate
  split
  · exact CcmRet.noConfusion
  rw [if_neg (by simp [htag]), if_neg (by omega)]
  intro hret
  have hloop : CipherDecides cipher (ccmUpdateLoop cipher sizeMod input.length ctx input) :=
    cipherDecides_loop sizeMod input.length ctx input
  rcases hloop with hok | ⟨x, code', hfail, _⟩
  · rw [hret] at hok
    exact CcmRet.noConfusion hok
  · exact hcipher x code' hfail

theorem keyStream_used_once_witness :
    (∃ tr ctx, Machine.Run (gcmMachine nextBytes)
        (mbedtlsGcmStarts (fun b => .ok (nextBytes b)) nextBytes .init .encrypt
          (List.replicate 12 0)).ctx tr ctx ∧
      tr.map (·.1.1) = [.update (List.replicate 17 0) 17 false] ∧
      NoReuse ((mbedtlsGcmStarts (fun b => .ok (nextBytes b)) nextBytes .init .encrypt
        (List.replicate 12 0)).log ++ gcmLog tr)) ∧
    (∃ tr ctx, Machine.Run (Machine.restrict (ccmMachine (2 ^ 32)) (CcmOrder (2 ^ 32))) .init
        tr ctx ∧
      tr.map (·.1.1) = [.starts .encrypt (List.replicate 13 0), .setLengths 0 2 4,
        .update [8, 9] 2] ∧
      NoReuse (ccmLog tr ++ (mbedtlsCcmFinish (fun b => .ok (nextBytes b)) ctx 4).log)) ∧
    (∃ tr ctx, Machine.Run (ccmStarMachine (2 ^ 32))
        (ccmStarSetIv (fun b => .ok (nextBytes b)) .init .starEncrypt (List.replicate 13 0)).ctx
        tr ctx ∧
      tr.map (·.1.1) = [[8], [9]] ∧ NoReuse (ccmStarLog tr)) ∧
    (∃ tr ctx, Machine.Run (chachapolyMachine Unit)
        (mbedtlsChachapolyStarts noPoly1305 (.init ()) (List.replicate 12 0) .encrypt).ctx
        tr ctx ∧
      tr.map (·.1.1) = [.update [8], .update [9]] ∧
      NoReuse ((mbedtlsChachapolyStarts noPoly1305 (.init ()) (List.replicate 12 0)
        .encrypt).log ++ chachapolyLog tr)) := by
  obtain ⟨hgcm, hccm, hstar, hchachapoly⟩ := keyStream_used_once (2 ^ 32) (by decide)
  refine ⟨?_, ?_, ?_, ?_⟩
  · have hnil : Machine.Run (gcmMachine nextBytes)
        (mbedtlsGcmStarts (fun b => .ok (nextBytes b)) nextBytes .init .encrypt
          (List.replicate 12 0)).ctx [] _ := .nil
    have hrun := hnil.snoc
      (a := (.update (List.replicate 17 0) 17 false, fun b => .ok (nextBytes b))) rfl
    refine ⟨_, _, hrun, rfl, hgcm _ _ _ _ _ _ _ (by decide +kernel) hrun ?_⟩
    intro ev hev code
    rw [List.mem_singleton.mp hev]
    have hret : (gcmCall (fun b => .ok (nextBytes b)) nextBytes
        (mbedtlsGcmStarts (fun b => .ok (nextBytes b)) nextBytes .init .encrypt
          (List.replicate 12 0)).ctx (.update (List.replicate 17 0) 17 false)).ret = .ok := by
      decide +kernel
    rw [hret]
    exact GcmRet.noConfusion
  · have hnil : Machine.Run (Machine.restrict (ccmMachine (2 ^ 32)) (CcmOrder (2 ^ 32))) .init
      [] .init := .nil
    have hrun := ((hnil.snoc
      (a := (.starts .encrypt (List.replicate 13 0), fun b => .ok (nextBytes b))) rfl).snoc
      (a := (.setLengths 0 2 4, fun b => .ok (nextBytes b))) rfl).snoc
      (a := (.update [8, 9] 2, fun b => .ok (nextBytes b))) rfl
    refine ⟨_, _, hrun, rfl, hccm nextBytes _ _ _ _ hrun ?_⟩
    intro ev hev
    simp only [List.mem_append, List.mem_singleton, List.not_mem_nil, false_or] at hev
    rcases hev with (rfl | rfl) | rfl <;> exact answers_nextBytes
  · have hnil : Machine.Run (ccmStarMachine (2 ^ 32))
        (ccmStarSetIv (fun b => .ok (nextBytes b)) .init .starEncrypt (List.replicate 13 0)).ctx
        [] _ := .nil
    have hrun := (hnil.snoc (a := ([8], fun b => .ok (nextBytes b))) rfl).snoc
      (a := ([9], fun b => .ok (nextBytes b))) rfl
    have hiff := hstar nextBytes _ _ _ _ _ rfl (by unfold ValidNonce; decide) hrun ?_
    · exact ⟨_, _, hrun, rfl, hiff.mpr (by decide +kernel)⟩
    intro ev hev
    simp only [List.mem_append, List.mem_singleton, List.not_mem_nil, false_or] at hev
    rcases hev with rfl | rfl
    all_goals
      exact ⟨answers_nextBytes, mbedtlsCcmUpdate_ne_cipher (by simp) _ (by decide +kernel) _⟩
  · have hnil : Machine.Run (chachapolyMachine Unit)
        (mbedtlsChachapolyStarts noPoly1305 (.init ()) (List.replicate 12 0) .encrypt).ctx
        [] _ := .nil
    have hrun := (hnil.snoc (a := (.update [8], noPoly1305)) rfl).snoc
      (a := (.update [9], noPoly1305)) rfl
    have hiff := hchachapoly Unit _ _ _ _ _ _ hrun ?_
    · exact ⟨_, _, hrun, rfl, hiff.mpr (by decide +kernel)⟩
    intro ev hev code
    have hret : ev.2.ret = .ok := by
      simp only [List.mem_append, List.mem_singleton, List.not_mem_nil, false_or] at hev
      rcases hev with rfl | rfl <;> decide +kernel
    rw [hret]
    exact ChachapolyRet.noConfusion

theorem ccmStarLength_singleton {a : ByteString × BlockCipher} {r : CcmResult}
    (hok : r.ret = .ok) : ccmStarLength [(a, r)] = a.1.length := by
  simp [ccmStarLength, hok]

/-- **Counterexample.** CCM* without tag accepts 65536 blocks and one byte with a nonce of
13 bytes: the counter has come back to the first block of the message. -/
theorem ccmStar_long_message :
    ∃ tr ctx, Machine.Run (ccmStarMachine (2 ^ 32))
        (ccmStarSetIv (fun b => .ok (nextBytes b)) .init .starEncrypt (List.replicate 13 0)).ctx
        tr ctx ∧
      tr.map (·.1.1) = [List.replicate (2 ^ 20 + 1) 0] ∧
      (∀ ev ∈ tr, Answers nextBytes ev.1.2 ∧ ev.2.ret = .ok) ∧ ¬ NoReuse (ccmStarLog tr) := by
  have hn : ValidNonce (List.replicate 13 0) := by
    unfold ValidNonce
    decide
  have hat : CcmStarAt (List.replicate 13 0) (2 ^ 32) 0
      (ccmStarSetIv (fun b => .ok (nextBytes b)) .init .starEncrypt (List.replicate 13 0)).ctx :=
    (ccmStarSetIv_at rfl hn).1
  generalize hlong : List.replicate (2 ^ 20 + 1) (0 : UInt8) = long
  have hlength : long.length = 2 ^ 20 + 1 := by rw [← hlong, List.length_replicate]
  have hanswers : ∀ (x : Block 16) (code : Int),
      (fun b => .ok (nextBytes b) : BlockCipher) x ≠ .error code := by simp
  have hcode := mbedtlsCcmUpdate_ne_cipher hanswers (2 ^ 32) hat.tagLen long
  obtain ⟨hok, _, _⟩ := hat.update answers_nextBytes hn (by decide) long hcode
  have hnil : Machine.Run (ccmStarMachine (2 ^ 32))
      (ccmStarSetIv (fun b => .ok (nextBytes b)) .init .starEncrypt (List.replicate 13 0)).ctx
      [] _ := .nil
  have hrun := hnil.snoc (a := (long, fun b => .ok (nextBytes b))) rfl
  refine ⟨_, _, hrun, rfl, ?_, ?_⟩
  · intro ev hev
    rw [List.mem_singleton.mp hev]
    exact ⟨answers_nextBytes, hok⟩
  rw [ccmStar_noReuse_iff (e := nextBytes) (by decide) rfl hn hrun]
  · have htotal := (ccmStarLength_singleton (a := (long, fun b => .ok (nextBytes b))) hok).trans
      hlength
    exact fun hle => absurd (htotal.symm.le.trans hle) (by decide +kernel)
  · intro ev hev
    rw [List.mem_singleton.mp hev]
    exact ⟨answers_nextBytes, hcode⟩

end TfPsaCrypto
