import TfPsaCrypto.Builtin.CcmCounter

/-!
# The loops of CCM

What the loops of `mbedtls_ccm_update_ad` and `mbedtls_ccm_update` do, whatever the chunks.
-/

namespace TfPsaCrypto

open Bytes Blocks CounterCbcMac CounterStream

/-- Where the cipher does not fail, its answer is that of `e`. -/
def Answers (e : Block 16 → Block 16) (cipher : BlockCipher) : Prop :=
  ∀ x y, cipher x = .ok y → y = e x

variable {e : Block 16 → Block 16} {cipher : BlockCipher} {nonce : ByteString}

/-! ## One call of the cipher -/

theorem encryptY_cases (hc : Answers e cipher) (ctx : MbedtlsCcmContext) :
    (∃ code, encryptY cipher ctx = ctx.fails (.cipher code)) ∨
      encryptY cipher ctx = { ctx with y := e ctx.y }.returns .ok := by
  unfold encryptY
  split
  · next code _ => exact Or.inl ⟨code, rfl⟩
  · next y hy =>
    rw [hc _ _ hy]
    exact Or.inr rfl

theorem mbedtlsCcmCrypt_cases (hc : Answers e cipher) (ctx : MbedtlsCcmContext)
    (offset : Nat) (input : ByteString) :
    (∃ code, mbedtlsCcmCrypt cipher ctx offset input =
        { ctx.fails (.cipher code) with log := [⟨ctx.ctr, offset⟩] }) ∨
      mbedtlsCcmCrypt cipher ctx offset input =
        { ctx.returns .ok with
            output := Bytes.xor input ((e ctx.ctr).toList.drop offset)
            log := [⟨ctx.ctr, offset⟩] } := by
  unfold mbedtlsCcmCrypt
  split
  · next code _ => exact Or.inl ⟨code, rfl⟩
  · next tmp htmp =>
    rw [hc _ _ htmp]
    exact Or.inr rfl

/-! ## Additional data -/

theorem ccmUpdateAdLoop_cases (hc : Answers e cipher) {sizeMod : Nat} :
    ∀ fuel ctx add, add.length ≤ fuel → ctx.processed + add.length ≤ ctx.addLen →
      ctx.processed + add.length < sizeMod →
      ((ccmUpdateAdLoop cipher sizeMod fuel ctx add).ret ≠ .ok ∧
          (ccmUpdateAdLoop cipher sizeMod fuel ctx add).ctx.state.error = true ∧
          (ccmUpdateAdLoop cipher sizeMod fuel ctx add).log = []) ∨
        ccmUpdateAdLoop cipher sizeMod fuel ctx add =
          { ctx with
              y := absorbTo e ctx.y (ctx.processed + 2) (ctx.addLen + 2) add
              processed := ctx.processed + add.length }.returns .ok := by
  intro fuel
  induction fuel with
  | zero =>
    intro ctx add hfuel _ _
    have hadd : add = [] := List.length_eq_zero_iff.mp (by omega)
    subst hadd
    right
    rw [absorbTo_nil]
    rfl
  | succ fuel ih =>
    intro ctx add hfuel hlen hsize
    unfold ccmUpdateAdLoop
    by_cases hadd : add.length = 0
    · have hnil : add = [] := List.length_eq_zero_iff.mp hadd
      subst hnil
      right
      rw [absorbTo_nil]
      rfl
    · rw [if_neg hadd]
      dsimp only
      generalize huse : min (16 - (ctx.processed + 2) % 16) add.length = use
      have hpiece : (add.take use).length = use := List.length_take_of_le (by omega)
      have hdrop : (add.drop use).length = add.length - use := List.length_drop
      have hne : add.take use ≠ [] := by
        intro hnil
        rw [hnil, List.length_nil] at hpiece
        omega
      have hproc : (ctx.processed + use) % sizeMod = ctx.processed + use :=
        Nat.mod_eq_of_lt (by omega)
      rw [hproc]
      -- the piece, then the rest of the data
      have hsplit : absorbTo e ctx.y (ctx.processed + 2) (ctx.addLen + 2) add =
          absorbTo e (absorbTo e ctx.y (ctx.processed + 2) (ctx.addLen + 2) (add.take use))
            (ctx.processed + use + 2) (ctx.addLen + 2) (add.drop use) := by
        conv_lhs => rw [← List.take_append_drop use add]
        rw [absorbTo_append (by omega), hpiece, Nat.add_right_comm]
      have hfirst : absorbTo e ctx.y (ctx.processed + 2) (ctx.addLen + 2) (add.take use) = _ :=
        absorbTo_piece hne (by omega)
      rw [hpiece] at hfirst
      rw [hsplit]
      by_cases hend : use + (ctx.processed + 2) % 16 = 16 ∨ ctx.processed + use = ctx.addLen
      · rw [if_pos (by omega)] at hfirst
        rw [if_pos hend]
        rcases encryptY_cases hc { ctx with
            y := ctx.y.xorAt ((ctx.processed + 2) % 16) (add.take use)
            processed := ctx.processed + use } with ⟨code, hcode⟩ | hok
        · left
          rw [hcode, if_pos (by simp [MbedtlsCcmContext.fails])]
          exact ⟨by simp [MbedtlsCcmContext.fails], rfl, rfl⟩
        · rw [hok, if_neg (by simp [MbedtlsCcmContext.returns])]
          have hrest := ih (MbedtlsCcmContext.returns { ctx with
            y := e (ctx.y.xorAt ((ctx.processed + 2) % 16) (add.take use))
            processed := ctx.processed + use } .ok).ctx (add.drop use) (by omega)
            (by show ctx.processed + use + _ ≤ ctx.addLen; omega)
            (by show ctx.processed + use + _ < sizeMod; omega)
          rw [hfirst]
          have hsum : ctx.processed + add.length =
              ctx.processed + use + (add.drop use).length := by
            omega
          rw [hsum]
          exact hrest
      · rw [if_neg (by omega)] at hfirst
        rw [if_neg hend]
        have hrest := ih { ctx with
          y := ctx.y.xorAt ((ctx.processed + 2) % 16) (add.take use)
          processed := ctx.processed + use } (add.drop use) (by omega)
          (by show ctx.processed + use + _ ≤ ctx.addLen; omega)
          (by show ctx.processed + use + _ < sizeMod; omega)
        rw [hfirst]
        have hsum : ctx.processed + add.length = ctx.processed + use + (add.drop use).length := by
          omega
        rw [hsum]
        exact hrest

/-! ## The message -/

/-- How often the counter is incremented before position `pos` of `total` bytes. -/
def blockIndex (total pos : Nat) : Nat := if pos = total then (pos + 15) / 16 else pos / 16

theorem blockIndex_of_ne {total pos : Nat} (h : pos ≠ total) :
    blockIndex total pos = pos / 16 :=
  if_neg h

theorem blockIndex_piece {total pos len : Nat} (hlen : 0 < len) (hfit : pos % 16 + len ≤ 16) :
    blockIndex total (pos + len) =
      pos / 16 + if pos % 16 + len = 16 ∨ pos + len = total then 1 else 0 := by
  unfold blockIndex
  split <;> split <;> omega

def plaintextOf (mode : CcmMode) (input output : ByteString) : ByteString :=
  if mode.isEncrypt then input else output

theorem plaintextOf_append (mode : CcmMode) (x x' y y' : ByteString) :
    plaintextOf mode (x ++ x') (y ++ y') = plaintextOf mode x y ++ plaintextOf mode x' y' := by
  unfold plaintextOf
  split <;> rfl

theorem length_plaintextOf (mode : CcmMode) {x y : ByteString} (h : y.length = x.length) :
    (plaintextOf mode x y).length = x.length := by
  unfold plaintextOf
  split
  · rfl
  · exact h

/-- The block of the key stream with number `i` comes from counter block `i + 1`. -/
def messageBlock (nonce : ByteString) (i : Nat) : Block 16 := counterBlock nonce (1 + i)

theorem ccmAuthenticate_cases (hc : Answers e cipher) (ctx : MbedtlsCcmContext)
    (offset : Nat) (data : ByteString) (blockEnd : Bool) :
    (∃ code, blockEnd = true ∧ ccmAuthenticate cipher ctx offset data blockEnd =
        { ctx with y := ctx.y.xorAt offset data }.fails (.cipher code)) ∨
      ccmAuthenticate cipher ctx offset data blockEnd =
        { ctx with
            y := if blockEnd then e (ctx.y.xorAt offset data)
              else ctx.y.xorAt offset data }.returns .ok := by
  cases blockEnd with
  | false => exact Or.inr rfl
  | true =>
    rcases encryptY_cases hc { ctx with y := ctx.y.xorAt offset data } with ⟨code, h⟩ | h
    · exact Or.inl ⟨code, rfl, h⟩
    · exact Or.inr h

/-- What `mbedtls_ccm_update` does to the bytes of one block before the counter is incremented. -/
def pieceDone (e : Block 16 → Block 16) (ctx : MbedtlsCcmContext) (offset : Nat)
    (data output : ByteString) (blockEnd : Bool) : CcmResult :=
  { ret := .ok
    ctx := { ctx with
      y := if blockEnd then e (ctx.y.xorAt offset data) else ctx.y.xorAt offset data }
    output := output
    log := [⟨ctx.ctr, offset⟩] }

def PieceFailed (ctx : MbedtlsCcmContext) (offset : Nat) (r : CcmResult) : Prop :=
  r.ret ≠ .ok ∧ r.ctx.state.error = true ∧ (r.log = [] ∨ r.log = [⟨ctx.ctr, offset⟩])

theorem ccmEncryptPiece_cases (hc : Answers e cipher) (ctx : MbedtlsCcmContext)
    (offset : Nat) (input : ByteString) (blockEnd : Bool) :
    PieceFailed ctx offset (ccmEncryptPiece cipher ctx offset input blockEnd) ∨
      ccmEncryptPiece cipher ctx offset input blockEnd =
        pieceDone e ctx offset input (Bytes.xor input ((e ctx.ctr).toList.drop offset))
          blockEnd := by
  unfold ccmEncryptPiece
  rcases ccmAuthenticate_cases hc ctx offset input blockEnd with ⟨code, _, hauth⟩ | hauth
  · left
    rw [hauth]
    exact ⟨by simp [MbedtlsCcmContext.fails], rfl, Or.inl rfl⟩
  rw [hauth]
  simp only [MbedtlsCcmContext.returns, ne_eq, not_true_eq_false, if_false]
  rcases mbedtlsCcmCrypt_cases hc { ctx with
    y := if blockEnd = true then e (ctx.y.xorAt offset input)
      else ctx.y.xorAt offset input } offset input with ⟨code, hcrypt⟩ | hcrypt
  · left
    rw [hcrypt]
    exact ⟨by simp [MbedtlsCcmContext.fails], rfl, Or.inr rfl⟩
  · right
    exact hcrypt

theorem ccmDecryptPiece_cases (hc : Answers e cipher) (ctx : MbedtlsCcmContext)
    (offset : Nat) (input : ByteString) (blockEnd : Bool) :
    PieceFailed ctx offset (ccmDecryptPiece cipher ctx offset input blockEnd) ∨
      ccmDecryptPiece cipher ctx offset input blockEnd =
        pieceDone e ctx offset (Bytes.xor input ((e ctx.ctr).toList.drop offset))
          (Bytes.xor input ((e ctx.ctr).toList.drop offset)) blockEnd := by
  unfold ccmDecryptPiece
  rcases mbedtlsCcmCrypt_cases hc ctx offset input with ⟨code, hcrypt⟩ | hcrypt
  · left
    rw [hcrypt]
    exact ⟨by simp [MbedtlsCcmContext.fails], rfl, Or.inr rfl⟩
  rw [hcrypt]
  simp only [MbedtlsCcmContext.returns, ne_eq, not_true_eq_false, if_false]
  rcases ccmAuthenticate_cases hc ctx offset
    (Bytes.xor input ((e ctx.ctr).toList.drop offset)) blockEnd with ⟨code, _, hauth⟩ | hauth
  · left
    rw [hauth]
    exact ⟨by simp [MbedtlsCcmContext.fails], rfl, Or.inr rfl⟩
  · right
    rw [hauth]
    rfl

theorem ccmUpdateRound_cases (hc : Answers e cipher) (hn : ValidNonce nonce)
    (ctx : MbedtlsCcmContext) (total : Nat) {pos : Nat} {input : ByteString}
    (hmode : ctx.mode.isEncrypt = true ∨ ctx.mode.isDecrypt = true)
    (hne : input ≠ []) (hfit : pos % 16 + input.length ≤ 16)
    (hend : pos % 16 + input.length = 16 ∨ ctx.processed = ctx.plaintextLen ↔
      pos % 16 + input.length = 16 ∨ pos + input.length = total)
    (hq : ctx.q = lengthSize nonce) (hctr : ctx.ctr = messageBlock nonce (pos / 16)) :
    ((ccmUpdateRound cipher ctx (pos % 16) input).ret ≠ .ok ∧
        (ccmUpdateRound cipher ctx (pos % 16) input).ctx.state.error = true ∧
        ∃ b ≤ pos + input.length, Feeds 16 (messageBlock nonce) pos
          (ccmUpdateRound cipher ctx (pos % 16) input).log b) ∨
      ccmUpdateRound cipher ctx (pos % 16) input =
        { ret := .ok
          ctx := { ctx with
            y := absorbTo e ctx.y pos total (plaintextOf ctx.mode input (encrypt e nonce pos input))
            ctr := messageBlock nonce (blockIndex total (pos + input.length)) }
          output := encrypt e nonce pos input
          log := [⟨messageBlock nonce (pos / 16), pos % 16⟩] } := by
  have hlen : 0 < input.length := List.length_pos_iff.mpr hne
  have hout : Bytes.xor input ((e ctx.ctr).toList.drop (pos % 16)) = encrypt e nonce pos input := by
    rw [encrypt_piece hfit, hctr]
    rfl
  have habsorb : ∀ data : ByteString, data.length = input.length →
      absorbTo e ctx.y pos total data =
        if decide (input.length + pos % 16 = 16 ∨ ctx.processed = ctx.plaintextLen) = true then
          e (ctx.y.xorAt (pos % 16) data) else ctx.y.xorAt (pos % 16) data := by
    intro data hdata
    have hdata' : data ≠ [] := by
      intro hnil
      rw [hnil, List.length_nil] at hdata
      omega
    rw [absorbTo_piece hdata' (by omega), hdata]
    simp only [decide_eq_true_eq, Nat.add_comm input.length, hend]
  have hinc : (if decide (input.length + pos % 16 = 16 ∨ ctx.processed = ctx.plaintextLen) = true
      then ccmIncrement ctx.ctr 0 ctx.q else ctx.ctr) =
        messageBlock nonce (blockIndex total (pos + input.length)) := by
    rw [blockIndex_piece hlen hfit, hctr, hq]
    simp only [decide_eq_true_eq, Nat.add_comm input.length, hend]
    split
    · exact ccmIncrement_counterBlock hn _
    · rfl
  have hpiece := ccmEncryptPiece_cases hc ctx (pos % 16) input
  have hpiece' := ccmDecryptPiece_cases hc ctx (pos % 16) input
  rw [hout] at hpiece hpiece'
  unfold ccmUpdateRound
  simp only
  generalize decide (input.length + pos % 16 = 16 ∨ ctx.processed = ctx.plaintextLen) =
    blockEnd at habsorb hinc ⊢
  -- both branches end alike
  have hcrypted : PieceFailed ctx (pos % 16)
      (if ctx.mode.isEncrypt = true then ccmEncryptPiece cipher ctx (pos % 16) input blockEnd
        else if ctx.mode.isDecrypt = true then ccmDecryptPiece cipher ctx (pos % 16) input blockEnd
        else ctx.returns .ok) ∨
      (if ctx.mode.isEncrypt = true then ccmEncryptPiece cipher ctx (pos % 16) input blockEnd
        else if ctx.mode.isDecrypt = true then ccmDecryptPiece cipher ctx (pos % 16) input blockEnd
        else ctx.returns .ok) =
        pieceDone e ctx (pos % 16) (plaintextOf ctx.mode input (encrypt e nonce pos input))
          (encrypt e nonce pos input) blockEnd := by
    unfold plaintextOf
    by_cases henc : ctx.mode.isEncrypt = true
    · rw [if_pos henc, if_pos henc]
      exact hpiece blockEnd
    · rw [if_neg henc, if_neg henc, if_pos (hmode.resolve_left henc)]
      exact hpiece' blockEnd
  rcases hcrypted with ⟨hret, herror, hlog⟩ | hdone
  · left
    rw [if_pos hret]
    refine ⟨hret, herror, ?_⟩
    rcases hlog with hlog | hlog
    · rw [hlog]
      exact ⟨pos, by omega, .nil⟩
    · rw [hlog, hctr]
      exact ⟨_, Nat.le_refl _, Feeds.single hlen hfit⟩
  · right
    have hplain : (plaintextOf ctx.mode input (encrypt e nonce pos input)).length =
        input.length := length_plaintextOf ctx.mode (length_encrypt pos input)
    rw [hdone, if_neg (by simp [pieceDone]), habsorb _ hplain, ← hinc, ← hctr]
    cases blockEnd <;> simp [pieceDone]

theorem ccmUpdateLoop_cases (hc : Answers e cipher) (hn : ValidNonce nonce) {sizeMod : Nat}
    (hsize : 16 ∣ sizeMod) {total : Nat} :
    ∀ fuel ctx pos input, input.length ≤ fuel →
      (ctx.mode.isEncrypt = true ∨ ctx.mode.isDecrypt = true) → ctx.q = lengthSize nonce →
      ctx.processed = pos % sizeMod →
      ctx.ctr = messageBlock nonce (blockIndex total pos) → (pos + input.length ≤ total) →
      (∀ p, pos < p → p ≤ pos + input.length →
        (p % 16 = 0 ∨ p % sizeMod = ctx.plaintextLen ↔ p % 16 = 0 ∨ p = total)) →
      ((ccmUpdateLoop cipher sizeMod fuel ctx input).ret ≠ .ok ∧
          (ccmUpdateLoop cipher sizeMod fuel ctx input).ctx.state.error = true ∧
          ∃ b ≤ pos + input.length, Feeds 16 (messageBlock nonce) pos
            (ccmUpdateLoop cipher sizeMod fuel ctx input).log b) ∨
        ((ccmUpdateLoop cipher sizeMod fuel ctx input).ret = .ok ∧
          (ccmUpdateLoop cipher sizeMod fuel ctx input).ctx =
            { ctx with
                y := absorbTo e ctx.y pos total
                  (plaintextOf ctx.mode input (encrypt e nonce pos input))
                ctr := messageBlock nonce (blockIndex total (pos + input.length))
                processed := (pos + input.length) % sizeMod } ∧
          (ccmUpdateLoop cipher sizeMod fuel ctx input).output = encrypt e nonce pos input ∧
          Feeds 16 (messageBlock nonce) pos
            (ccmUpdateLoop cipher sizeMod fuel ctx input).log (pos + input.length)) := by
  have hnil : ∀ (ctx : MbedtlsCcmContext) (pos : Nat), ctx.processed = pos % sizeMod →
      ctx.ctr = messageBlock nonce (blockIndex total pos) →
      ctx = { ctx with
        y := absorbTo e ctx.y pos total (plaintextOf ctx.mode [] (encrypt e nonce pos []))
        ctr := messageBlock nonce (blockIndex total (pos + ([] : ByteString).length))
        processed := (pos + ([] : ByteString).length) % sizeMod } := by
    intro ctx pos hproc hctr
    have hplain : plaintextOf ctx.mode [] (encrypt e nonce pos []) = [] := by
      unfold plaintextOf
      split <;> rfl
    rw [hplain, absorbTo_nil, List.length_nil, Nat.add_zero, ← hproc, ← hctr]
  intro fuel
  induction fuel with
  | zero =>
    intro ctx pos input hfuel _ _ hproc hctr _ _
    have hinput : input = [] := List.length_eq_zero_iff.mp (by omega)
    subst hinput
    right
    exact ⟨rfl, hnil ctx pos hproc hctr, rfl, .nil⟩
  | succ fuel ih =>
    intro ctx pos input hfuel hmode hq hproc hctr htotal hend
    unfold ccmUpdateLoop
    by_cases hinput : input.length = 0
    · have hempty : input = [] := List.length_eq_zero_iff.mp hinput
      subst hempty
      right
      exact ⟨rfl, hnil ctx pos hproc hctr, rfl, .nil⟩
    · rw [if_neg hinput]
      have hoff : ctx.processed % 16 = pos % 16 := by
        rw [hproc, Nat.mod_mod_of_dvd _ hsize]
      simp only
      rw [hoff]
      generalize huse : min (16 - pos % 16) input.length = use
      have hpiece : (input.take use).length = use := List.length_take_of_le (by omega)
      have hdrop : (input.drop use).length = input.length - use := List.length_drop
      have hne : input.take use ≠ [] := by
        intro hempty
        rw [hempty, List.length_nil] at hpiece
        omega
      have hproc' : (ctx.processed + use) % sizeMod = (pos + use) % sizeMod := by
        rw [hproc, Nat.mod_add_mod]
      rw [hproc']
      rw [blockIndex_of_ne (by omega)] at hctr
      have hblock := hend (pos + use) (by omega) (by omega)
      have hround := ccmUpdateRound_cases hc hn
        { ctx with processed := (pos + use) % sizeMod } total hmode hne
        (by rw [hpiece]; omega) (by rw [hpiece]; simp only; omega) hq hctr
      rw [hpiece] at hround
      rcases hround with ⟨hret, herror, b, hb, hfeeds⟩ | hround
      · left
        rw [if_pos hret]
        exact ⟨hret, herror, b, by omega, hfeeds⟩
      rw [hround, if_neg (by simp)]
      have hencrypt : encrypt e nonce pos input = encrypt e nonce pos (input.take use) ++
          encrypt e nonce (pos + use) (input.drop use) := by
        conv_lhs => rw [← List.take_append_drop use input]
        rw [encrypt_append, hpiece]
      have hsplit : plaintextOf ctx.mode input (encrypt e nonce pos input) =
          plaintextOf ctx.mode (input.take use) (encrypt e nonce pos (input.take use)) ++
            plaintextOf ctx.mode (input.drop use)
              (encrypt e nonce (pos + use) (input.drop use)) := by
        rw [hencrypt, ← plaintextOf_append, List.take_append_drop]
      have hplain : ∀ (p : Nat) (data : ByteString),
          (plaintextOf ctx.mode data (encrypt e nonce p data)).length = data.length :=
        fun p data => length_plaintextOf _ (length_encrypt p data)
      have hsum : pos + input.length = pos + use + (input.drop use).length := by omega
      have hfeed : Feeds 16 (messageBlock nonce) pos
          [⟨messageBlock nonce (pos / 16), pos % 16⟩] (pos + use) :=
        Feeds.single (by omega) (by omega)
      have hrest := ih { ctx with
          y := absorbTo e ctx.y pos total
            (plaintextOf ctx.mode (input.take use) (encrypt e nonce pos (input.take use)))
          ctr := messageBlock nonce (blockIndex total (pos + use))
          processed := (pos + use) % sizeMod }
        (pos + use) (input.drop use) (by omega) hmode hq rfl rfl (by omega)
        (fun p hlo hhi => hend p (by omega) (by omega))
      rw [hsum, hsplit, hencrypt, absorbTo_append (by rw [hplain, hplain]; omega), hplain, hpiece]
      rcases hrest with ⟨hret, herror, b, hb, hfeeds⟩ | ⟨hret, hctx, hout, hfeeds⟩
      · exact Or.inl ⟨hret, herror, b, hb, hfeed.append hfeeds⟩
      · right
        refine ⟨hret, hctx, ?_, hfeed.append hfeeds⟩
        rw [hout]

end TfPsaCrypto
