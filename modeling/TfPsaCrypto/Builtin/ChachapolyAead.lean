import Mathlib.Tactic.IntervalCases
import TfPsaCrypto.Builtin.ChachapolyStream
import TfPsaCrypto.Builtin.Poly1305Mac
import TfPsaCrypto.Library.ChachaPoly

/-!
# ChaCha20-Poly1305 as an AEAD

The one-shot functions of `chachapoly.c`, and what a message in pieces gives: the construction of
RFC 8439 for the same key and nonce.
-/

namespace TfPsaCrypto

open Bytes BlockStream ChachaPoly

/-! ## The key stream -/

theorem chacha20QuarterRound_eq (s : Chacha20State) {a b c d : Fin 16} (hab : a ≠ b) (hac : a ≠ c)
    (had : a ≠ d) (hbc : b ≠ c) (hbd : b ≠ d) (hcd : c ≠ d) :
    chacha20QuarterRound s a b c d = quarterRoundAt s a b c d := by
  have hne : ∀ {i j : Fin 16}, i ≠ j → (i : Nat) ≠ j := fun h heq => h (Fin.ext heq)
  have hhalves : chacha20QuarterRound s a b c d =
      chacha20HalfRound (chacha20HalfRound s a b c d 16 12) a b c d 8 7 := rfl
  -- The second half starts from the words the first one left.
  rw [hhalves, chacha20HalfRound_eq s hab hac had hbc hbd hcd 16 12 rfl rfl rfl rfl,
    chacha20HalfRound_eq _ hab hac had hbc hbd hcd 8 7 (x := s[a] + s[b])
      (y := rotl32 (s[b] ^^^ (s[c] + rotl32 (s[d] ^^^ (s[a] + s[b])) 16)) 12)
      (z := s[c] + rotl32 (s[d] ^^^ (s[a] + s[b])) 16)
      (w := rotl32 (s[d] ^^^ (s[a] + s[b])) 16) ?_ ?_ ?_ ?_, set_twice s hbc hbd hcd]
  · rfl
  all_goals
    simp only [Fin.getElem_fin, Vector.getElem_set_self, Vector.getElem_set_ne _ _ (hne hab.symm),
      Vector.getElem_set_ne _ _ (hne hac.symm), Vector.getElem_set_ne _ _ (hne had.symm),
      Vector.getElem_set_ne _ _ (hne hbc), Vector.getElem_set_ne _ _ (hne hbd),
      Vector.getElem_set_ne _ _ (hne hcd)]

theorem chacha20InnerBlock_eq (s : Chacha20State) : chacha20InnerBlock s = innerBlock s := by
  unfold chacha20InnerBlock innerBlock
  simp only
  rw [chacha20QuarterRound_eq, chacha20QuarterRound_eq, chacha20QuarterRound_eq,
    chacha20QuarterRound_eq, chacha20QuarterRound_eq, chacha20QuarterRound_eq,
    chacha20QuarterRound_eq, chacha20QuarterRound_eq] <;> decide

theorem chacha20Block_eq (s : Chacha20State) :
    chacha20Block s = serialize ((innerBlock^[10] s).zipWith (· + ·) s) := by
  have hround : chacha20InnerBlock = innerBlock := funext chacha20InnerBlock_eq
  unfold chacha20Block
  rw [hround]
  rfl

theorem mbedtlsChacha20Starts_state (ctx : MbedtlsChacha20Context) (key nonce : ByteString) :
    (mbedtlsChacha20Starts (mbedtlsChacha20Setkey ctx key) nonce 0).state =
      initialState key nonce 0 := by
  have h0 : wordLE expand32ByteK (4 * 0) = 0x61707865 := by decide
  have h1 : wordLE expand32ByteK (4 * 1) = 0x3320646e := by decide
  have h2 : wordLE expand32ByteK (4 * 2) = 0x79622d32 := by decide
  have h3 : wordLE expand32ByteK (4 * 3) = 0x6b206574 := by decide
  apply Vector.ext
  intro i hi
  unfold mbedtlsChacha20Starts mbedtlsChacha20Setkey initialState
  simp only [Vector.getElem_ofFn, Fin.getElem_fin]
  interval_cases i
  · exact h0
  · exact h1
  · exact h2
  · exact h3
  all_goals rfl

theorem chacha20Input_initialState (key nonce : ByteString) (i : Nat) :
    chacha20Input (initialState key nonce 0) i = initialState key nonce (UInt32.ofNat i) := by
  rfl

theorem chacha20Block_input (key nonce : ByteString) (i : Nat) :
    chacha20Block (chacha20Input (initialState key nonce 0) i) = block key nonce i := by
  rw [chacha20Block_eq, chacha20Input_initialState]
  rfl

def chacha20Blocks (state : Chacha20State) (i : Nat) : ByteString :=
  chacha20Block (chacha20Input state i)

theorem length_chacha20Blocks (state : Chacha20State) (i : Nat) :
    (chacha20Blocks state i).length = 64 := by
  unfold chacha20Blocks
  rw [chacha20Block_eq, length_serialize]

/-- The context at position `pos`, with the block that the buffer holds. -/
structure Chacha20Reads (initial : Chacha20State) (pos : Nat) (ctx : MbedtlsChacha20Context) :
    Prop extends Chacha20At initial pos ctx where
  keystream8 : pos % 64 ≠ 0 → ctx.keystream8 = chacha20Blocks initial (pos / 64)

def chacha20KeyStream (state : Chacha20State) (pos len : Nat) : ByteString :=
  segment 64 (chacha20Blocks state) pos len

theorem chacha20KeyStream_add (state : Chacha20State) (pos m n : Nat) :
    chacha20KeyStream state pos (m + n) =
      chacha20KeyStream state pos m ++ chacha20KeyStream state (pos + m) n :=
  segment_add pos m n

theorem xor_keyStream_append (state : Chacha20State) (pos : Nat) (x y : ByteString) :
    Bytes.xor (x ++ y) (chacha20KeyStream state pos (x ++ y).length) =
      Bytes.xor x (chacha20KeyStream state pos x.length) ++
        Bytes.xor y (chacha20KeyStream state (pos + x.length) y.length) := by
  rw [List.length_append, chacha20KeyStream_add]
  exact Bytes.xor_append (length_segment _ _).symm

theorem chacha20KeyStream_block (state : Chacha20State) {pos len : Nat}
    (hfit : pos % 64 + len ≤ 64) :
    chacha20KeyStream state pos len =
      ((chacha20Blocks state (pos / 64)).drop (pos % 64)).take len := by
  have h := segment_of_block (T := chacha20Blocks state) (length_chacha20Blocks state (pos / 64))
    hfit
  rw [Nat.div_add_mod'] at h
  exact h

variable {state : Chacha20State}

theorem chacha20UpdateLoop_output :
    ∀ fuel ctx pos input, input.length ≤ fuel → 64 ∣ pos → Chacha20At state pos ctx →
      (chacha20UpdateLoop fuel ctx input).output =
          Bytes.xor input (chacha20KeyStream state pos input.length) ∧
        ((pos + input.length) % 64 ≠ 0 →
          (chacha20UpdateLoop fuel ctx input).ctx.keystream8 =
            chacha20Blocks state ((pos + input.length) / 64)) := by
  intro fuel
  induction fuel with
  | zero =>
    intro ctx pos input hfuel hpos _
    have hinput : input = [] := List.length_eq_zero_iff.mp (by omega)
    subst hinput
    refine ⟨rfl, ?_⟩
    intro hne
    rw [List.length_nil] at hne
    omega
  | succ fuel ih =>
    intro ctx pos input hfuel hpos hat
    have hstate : ctx.state = chacha20Input state (pos / 64) := by
      rw [hat.state]
      congr 1
      omega
    have hblock : (chacha20NextBlock ctx).keystream8 = chacha20Blocks state (pos / 64) :=
      congrArg chacha20Block hstate
    have hoff : pos % 64 = 0 := Nat.mod_eq_zero_of_dvd hpos
    unfold chacha20UpdateLoop
    simp only
    split
    · next hfull =>
      have hlen : (input.drop 64).length = input.length - 64 := List.length_drop
      have htake : (input.take 64).length = 64 := List.length_take_of_le hfull
      obtain ⟨hrest, hbuffer⟩ := ih (chacha20NextBlock ctx) (pos + 64) (input.drop 64)
        (by omega) (by omega) (hat.next hpos)
      have hsum : pos + 64 + (input.drop 64).length = pos + input.length := by omega
      rw [hsum] at hbuffer
      refine ⟨?_, hbuffer⟩
      have hfirst : chacha20KeyStream state pos 64 = chacha20Blocks state (pos / 64) := by
        rw [chacha20KeyStream_block state (by omega), hoff, List.drop_zero,
          List.take_of_length_le (Nat.le_of_eq (length_chacha20Blocks state _))]
      have hsplit := xor_keyStream_append state pos (input.take 64) (input.drop 64)
      rw [List.take_append_drop, htake, hfirst] at hsplit
      rw [hrest, hblock, hsplit]
    · split
      · next hshort hne =>
        have hfit : chacha20KeyStream state pos input.length =
            (chacha20Blocks state (pos / 64)).take input.length := by
          rw [chacha20KeyStream_block state (by omega), hoff, List.drop_zero]
        have hsame : (pos + input.length) / 64 = pos / 64 := by omega
        refine ⟨?_, fun _ => by rw [hsame]; exact hblock⟩
        rw [hfit, xor_take (Nat.le_refl _), hblock]
      · next hne =>
        have hnil : input = [] := List.length_eq_zero_iff.mp (by omega)
        subst hnil
        refine ⟨rfl, ?_⟩
        intro hmod
        omega

theorem mbedtlsChacha20Update_output {ctx : MbedtlsChacha20Context} {pos : Nat}
    (hreads : Chacha20Reads state pos ctx) (input : ByteString) :
    (mbedtlsChacha20Update ctx input).output =
        Bytes.xor input (chacha20KeyStream state pos input.length) ∧
      Chacha20Reads state (pos + input.length) (mbedtlsChacha20Update ctx input).ctx := by
  have hat' := (mbedtlsChacha20Update_spec hreads.toChacha20At input).1
  have hused := hreads.keystreamBytesUsed
  have hbuffer := hreads.keystream8
  unfold bytesUsed at hused
  unfold mbedtlsChacha20Update at hat' ⊢
  simp only at hat' ⊢
  generalize hleft : min (64 - ctx.keystreamBytesUsed) input.length = leftover at *
  have hlen : (input.drop leftover).length = input.length - leftover := List.length_drop
  have htake : (input.take leftover).length = leftover := List.length_take_of_le (by omega)
  -- the bytes from the buffer
  have hfirst : Bytes.xor (input.take leftover) (ctx.keystream8.drop ctx.keystreamBytesUsed) =
      Bytes.xor (input.take leftover) (chacha20KeyStream state pos leftover) := by
    by_cases hzero : leftover = 0
    · rw [hzero, List.take_zero]
      rfl
    have hoff : pos % 64 ≠ 0 := by
      intro h
      rw [if_pos h] at hused
      omega
    rw [if_neg hoff] at hused
    rw [chacha20KeyStream_block state (by omega), xor_take (by omega), hbuffer hoff, hused]
  have hsplit := xor_keyStream_append state pos (input.take leftover) (input.drop leftover)
  rw [List.take_append_drop, htake] at hsplit
  rw [hfirst, hsplit]
  by_cases hall : leftover = input.length
  · have hnil : input.drop leftover = [] := List.drop_eq_nil_of_le (by omega)
    rw [hnil, chacha20UpdateLoop_nil] at hat' ⊢
    refine ⟨rfl, hat', ?_⟩
    intro hmod
    have hoff : pos % 64 ≠ 0 := by
      intro h
      rw [if_pos h] at hused
      omega
    rw [if_neg hoff] at hused
    have hsame : (pos + input.length) / 64 = pos / 64 := by omega
    rw [hsame]
    exact hbuffer hoff
  · obtain ⟨hdvd, _, hat⟩ := hreads.toChacha20At.drain hleft hall
    obtain ⟨hrest, hbuffer'⟩ := chacha20UpdateLoop_output input.length _ _ (input.drop leftover)
      (by omega) hdvd hat
    have hsum : pos + leftover + (input.drop leftover).length = pos + input.length := by omega
    rw [hsum] at hbuffer'
    rw [hrest]
    exact ⟨rfl, hat', hbuffer'⟩

/-! ## The calls -/

section Calls

variable {σ : Type*} (poly1305 : Poly1305Functions σ) (ctx : MbedtlsChachapolyContext σ)

def mbedtlsChachapolySetkey (key : ByteString) : MbedtlsChachapolyContext σ :=
  { ctx with chacha20Ctx := mbedtlsChacha20Setkey ctx.chacha20Ctx key }

structure ChachapolyOneShot (σ : Type*) where
  ret : ChachapolyRet
  ctx : MbedtlsChachapolyContext σ
  output : ByteString
  tag : ByteString

def chachapolyCryptAndTag (mode : ChachapolyMode) (nonce aad input : ByteString) :
    ChachapolyOneShot σ :=
  let started := mbedtlsChachapolyStarts poly1305 ctx nonce mode
  if started.ret ≠ .ok then
    { ret := started.ret, ctx := started.ctx, output := [], tag := [] }
  else
    let authenticated := mbedtlsChachapolyUpdateAad poly1305 started.ctx aad
    if authenticated.ret ≠ .ok then
      { ret := authenticated.ret, ctx := authenticated.ctx, output := [], tag := [] }
    else
      let crypted := mbedtlsChachapolyUpdate poly1305 authenticated.ctx input
      if crypted.ret ≠ .ok then
        { ret := crypted.ret, ctx := crypted.ctx, output := crypted.output, tag := [] }
      else
        let finished := mbedtlsChachapolyFinish poly1305 crypted.ctx
        { ret := finished.ret, ctx := finished.ctx, output := crypted.output
          tag := finished.output }

def mbedtlsChachapolyEncryptAndTag (nonce aad input : ByteString) : ChachapolyOneShot σ :=
  chachapolyCryptAndTag poly1305 ctx .encrypt nonce aad input

inductive ChachapolyDecryptRet where
  | crypt (ret : ChachapolyRet)
  | authFailed
  deriving DecidableEq, Repr

structure ChachapolyDecrypted (σ : Type*) where
  ret : ChachapolyDecryptRet
  ctx : MbedtlsChachapolyContext σ
  output : ByteString

def mbedtlsChachapolyAuthDecrypt (nonce aad tag input : ByteString) : ChachapolyDecrypted σ :=
  let crypted := chachapolyCryptAndTag poly1305 ctx .decrypt nonce aad input
  if crypted.ret ≠ .ok then
    { ret := .crypt crypted.ret, ctx := crypted.ctx, output := crypted.output }
  else if tag ≠ crypted.tag then
    { ret := .authFailed, ctx := crypted.ctx, output := List.replicate input.length 0 }
  else { ret := .crypt .ok, ctx := crypted.ctx, output := crypted.output }

inductive ChachapolyAction where
  | setkey (key : ByteString)
  | starts (nonce : ByteString) (mode : ChachapolyMode)
  | call (call : ChachapolyCall)

def chachapolyAct : ChachapolyAction → ChachapolyResult σ
  | .setkey key => (mbedtlsChachapolySetkey ctx key).returns .ok
  | .starts nonce mode => mbedtlsChachapolyStarts poly1305 ctx nonce mode
  | .call call => chachapolyCall poly1305 ctx call

end Calls

def chachapolyRun {σ : Type*} (poly1305 : Poly1305Functions σ) :
    MbedtlsChachapolyContext σ → List ChachapolyAction →
      MbedtlsChachapolyContext σ × List (ChachapolyResult σ)
  | ctx, [] => (ctx, [])
  | ctx, action :: actions =>
    let result := chachapolyAct poly1305 ctx action
    let rest := chachapolyRun poly1305 result.ctx actions
    (rest.1, result :: rest.2)

def chachapolyPieces (nonce : ByteString) (mode : ChachapolyMode) (aads inputs : List ByteString) :
    List ChachapolyAction :=
  .starts nonce mode ::
    (aads.map (fun aad => .call (.updateAad aad)) ++ inputs.map fun input => .call (.update input))

theorem chachapolyRun_append {σ : Type*} (poly1305 : Poly1305Functions σ)
    (ctx : MbedtlsChachapolyContext σ) (xs ys : List ChachapolyAction) :
    chachapolyRun poly1305 ctx (xs ++ ys) =
      ((chachapolyRun poly1305 (chachapolyRun poly1305 ctx xs).1 ys).1,
        (chachapolyRun poly1305 ctx xs).2 ++
          (chachapolyRun poly1305 (chachapolyRun poly1305 ctx xs).1 ys).2) := by
  induction xs generalizing ctx with
  | nil => rfl
  | cons x xs ih =>
    simp only [List.cons_append, chachapolyRun]
    rw [ih]

/-! ## The message so far -/

def ciphertextOf (mode : ChachapolyMode) (key nonce input : ByteString) : ByteString :=
  match mode with
  | .encrypt => crypt (block key nonce) input
  | .decrypt => input

/-- The context after the additional data `aad` and the text `input`. -/
structure ChachapolyAt (key nonce : ByteString) (m : ChachapolyMode) (aad input : ByteString)
    (ctx : MbedtlsChachapolyContext MbedtlsPoly1305Context) : Prop where
  mode : ctx.mode = m
  aadLen : ctx.aadLen = aad.length % 2 ^ 64
  ciphertextLen : ctx.ciphertextLen = input.length % 2 ^ 64
  chacha20 : Chacha20Reads (initialState key nonce 0) (64 + input.length) ctx.chacha20Ctx
  phase :
    (ctx.state = .aad ∧ input = [] ∧ Poly1305At ((block key nonce 0).take 32) aad ctx.poly1305Ctx) ∨
    (ctx.state = .ciphertext ∧
      Poly1305At ((block key nonce 0).take 32)
        (aad ++ pad16 aad.length ++ ciphertextOf m key nonce input) ctx.poly1305Ctx)

variable {key nonce aad input : ByteString} {mode : ChachapolyMode}
  {ctx : MbedtlsChachapolyContext MbedtlsPoly1305Context}

theorem chacha20Blocks_initialState (key nonce : ByteString) :
    chacha20Blocks (initialState key nonce 0) = block key nonce :=
  funext (chacha20Block_input key nonce)

theorem length_block (key nonce : ByteString) (i : Nat) : (block key nonce i).length = 64 :=
  length_serialize _

theorem length_poly1305Key (key nonce : ByteString) :
    32 ≤ ((block key nonce 0).take 32).length := by
  rw [List.length_take, length_block]
  decide

theorem crypt_append (x y : ByteString) :
    crypt (block key nonce) (x ++ y) =
      crypt (block key nonce) x ++
        Bytes.xor y (chacha20KeyStream (initialState key nonce 0) (64 + x.length) y.length) := by
  have h := xor_keyStream_append (initialState key nonce 0) 64 x y
  unfold chacha20KeyStream at h ⊢
  rw [chacha20Blocks_initialState] at h ⊢
  exact h

/-- The call succeeds and writes `output`, and `aad` and `input` are then absorbed. -/
abbrev ChachapolyDone (key nonce : ByteString) (mode : ChachapolyMode)
    (aad input output : ByteString) (r : ChachapolyResult MbedtlsPoly1305Context) : Prop :=
  r.ret = .ok ∧ r.output = output ∧ ChachapolyAt key nonce mode aad input r.ctx

theorem mbedtlsChachapolyStarts_at
    (ctx : MbedtlsChachapolyContext MbedtlsPoly1305Context) (key nonce : ByteString)
    (mode : ChachapolyMode) :
    ChachapolyDone key nonce mode [] [] []
      (mbedtlsChachapolyStarts poly1305Functions (mbedtlsChachapolySetkey ctx key) nonce mode) := by
  have hstate := mbedtlsChacha20Starts_state ctx.chacha20Ctx key nonce
  have hreads : Chacha20Reads (initialState key nonce 0) 0
      (mbedtlsChacha20Starts (mbedtlsChacha20Setkey ctx.chacha20Ctx key) nonce 0) := by
    refine ⟨⟨?_, rfl⟩, fun h => absurd rfl h⟩
    rw [hstate, chacha20Input_initialState]
    rfl
  obtain ⟨houtput, hreads'⟩ := mbedtlsChacha20Update_output hreads (List.replicate 64 0)
  have hkey : (mbedtlsChacha20Update
      (mbedtlsChacha20Starts (mbedtlsChacha20Setkey ctx.chacha20Ctx key) nonce 0)
        (List.replicate 64 0)).output = block key nonce 0 := by
    have hblock : chacha20KeyStream (initialState key nonce 0) 0 64 = block key nonce 0 := by
      rw [chacha20KeyStream_block _ (by decide), chacha20Blocks_initialState]
      exact List.take_of_length_le (Nat.le_of_eq (length_block key nonce 0))
    rw [houtput, List.length_replicate, hblock]
    have hzeros : ∀ (n : Nat) (k : ByteString), k.length = n →
        Bytes.xor (List.replicate n 0) k = k := by
      intro n k hk
      subst hk
      induction k with
      | nil => rfl
      | cons b k ih =>
        show (0 ^^^ b) :: Bytes.xor (List.replicate k.length 0) k = b :: k
        rw [ih, UInt8.zero_xor]
    exact hzeros 64 _ (length_block key nonce 0)
  refine ⟨rfl, rfl, rfl, rfl, rfl, hreads', Or.inl ⟨rfl, rfl, ?_⟩⟩
  show Poly1305At _ [] (mbedtlsPoly1305Starts _)
  rw [← hkey]
  exact poly1305At_starts

@[simp] theorem MbedtlsChachapolyContext.returns_ret {σ : Type*} (ctx : MbedtlsChachapolyContext σ)
    (ret : ChachapolyRet) : (ctx.returns ret).ret = ret := rfl

@[simp] theorem MbedtlsChachapolyContext.returns_ctx {σ : Type*} (ctx : MbedtlsChachapolyContext σ)
    (ret : ChachapolyRet) : (ctx.returns ret).ctx = ctx := rfl

theorem chachapolyPad_spec {pkey data : ByteString} (hkey : 32 ≤ pkey.length)
    (hat : Poly1305At pkey data ctx.poly1305Ctx) {len n : Nat} (hlen : len = n % 2 ^ 64) :
    ∃ p, chachapolyPad poly1305Functions ctx len = { ctx with poly1305Ctx := p }.returns .ok ∧
      Poly1305At pkey (data ++ pad16 n) p := by
  unfold chachapolyPad pad16
  split
  · next hzero =>
    refine ⟨ctx.poly1305Ctx, rfl, ?_⟩
    have hnone : (16 - n % 16) % 16 = 0 := by omega
    rw [hnone, List.replicate_zero, List.append_nil]
    exact hat
  · next hsome =>
    have hcount : (16 - n % 16) % 16 = 16 - len % 16 := by omega
    refine ⟨_, rfl, ?_⟩
    rw [hcount]
    exact poly1305Update_spec hkey hat _

theorem mbedtlsChachapolyUpdateAad_at (hat : ChachapolyAt key nonce mode aad [] ctx)
    (haad : ctx.state = .aad) (piece : ByteString) :
    (mbedtlsChachapolyUpdateAad poly1305Functions ctx piece).ctx.state = .aad ∧
      ChachapolyDone key nonce mode (aad ++ piece) [] []
        (mbedtlsChachapolyUpdateAad poly1305Functions ctx piece) := by
  have hpoly : Poly1305At ((block key nonce 0).take 32) aad ctx.poly1305Ctx := by
    rcases hat.phase with ⟨_, _, h⟩ | ⟨h, _⟩
    · exact h
    · rw [haad] at h
      cases h
  unfold mbedtlsChachapolyUpdateAad
  rw [if_neg (not_not_intro haad)]
  refine ⟨haad, rfl, rfl, hat.mode, ?_, hat.ciphertextLen, hat.chacha20, Or.inl ⟨haad, rfl, ?_⟩⟩
  · show (ctx.aadLen + piece.length) % 2 ^ 64 = _
    rw [hat.aadLen, Nat.mod_add_mod, List.length_append]
  · exact poly1305Update_spec (length_poly1305Key key nonce) hpoly piece

theorem chachapolyCrypt_at {len : Nat}
    (hmode : ctx.mode = mode) (haad : ctx.aadLen = aad.length % 2 ^ 64)
    (hstate : ctx.state = .ciphertext)
    (hchacha : Chacha20Reads (initialState key nonce 0) (64 + input.length) ctx.chacha20Ctx)
    (hpoly : Poly1305At ((block key nonce 0).take 32)
      (aad ++ pad16 aad.length ++ ciphertextOf mode key nonce input) ctx.poly1305Ctx)
    (piece : ByteString) (hlen : len = (input ++ piece).length % 2 ^ 64) :
    ChachapolyDone key nonce mode aad (input ++ piece)
      (Bytes.xor piece
        (chacha20KeyStream (initialState key nonce 0) (64 + input.length) piece.length))
      (chachapolyCrypt poly1305Functions { ctx with ciphertextLen := len } piece) := by
  obtain ⟨houtput, hreads⟩ := mbedtlsChacha20Update_output hchacha piece
  have hkey := length_poly1305Key key nonce
  rw [Nat.add_assoc, ← List.length_append] at hreads
  unfold chachapolyCrypt
  simp only
  cases mode with
  | encrypt =>
    rw [if_pos hmode]
    refine ⟨rfl, houtput, hmode, haad, hlen, hreads, Or.inr ⟨hstate, ?_⟩⟩
    have hnext := poly1305Update_spec hkey hpoly
      (mbedtlsChacha20Update ctx.chacha20Ctx piece).output
    show Poly1305At _ (_ ++ crypt (block key nonce) (input ++ piece)) _
    rw [crypt_append, ← houtput, ← List.append_assoc]
    generalize mbedtlsChacha20Update ctx.chacha20Ctx piece = updated at hnext ⊢
    exact hnext
  | decrypt =>
    rw [if_neg (by rw [hmode]; decide)]
    refine ⟨rfl, houtput, hmode, haad, hlen, hreads, Or.inr ⟨hstate, ?_⟩⟩
    have hnext := poly1305Update_spec hkey hpoly piece
    show Poly1305At _ (_ ++ (input ++ piece)) _
    rw [← List.append_assoc]
    exact hnext

theorem mbedtlsChachapolyUpdate_at (hat : ChachapolyAt key nonce mode aad input ctx)
    (piece : ByteString) :
    ChachapolyDone key nonce mode aad (input ++ piece)
      (Bytes.xor piece
        (chacha20KeyStream (initialState key nonce 0) (64 + input.length) piece.length))
      (mbedtlsChachapolyUpdate poly1305Functions ctx piece) := by
  have hlen : (ctx.ciphertextLen + piece.length) % 2 ^ 64 =
      (input ++ piece).length % 2 ^ 64 := by
    rw [hat.ciphertextLen, Nat.mod_add_mod, List.length_append]
  unfold mbedtlsChachapolyUpdate
  rcases hat.phase with ⟨haad, hinput, hpoly⟩ | ⟨hciphertext, hpoly⟩
  · obtain ⟨p, hpad, hpoly'⟩ := @chachapolyPad_spec { ctx with state := .ciphertext } _ _
      (length_poly1305Key key nonce) hpoly _ _ hat.aadLen
    rw [if_neg (fun h => h.1 haad)]
    simp only [if_pos haad, hpad, MbedtlsChachapolyContext.returns_ret, ne_eq,
      not_true_eq_false, if_false]
    have hnil : ciphertextOf mode key nonce input = [] := by
      subst hinput
      cases mode <;> rfl
    rw [← List.append_nil (aad ++ _), ← hnil] at hpoly'
    exact @chachapolyCrypt_at _ _ _ _ _ { ctx with state := .ciphertext, poly1305Ctx := p } _
      hat.mode hat.aadLen rfl hat.chacha20 hpoly' piece hlen
  · have hne : ctx.state ≠ .aad := by
      rw [hciphertext]
      decide
    rw [if_neg (fun h => h.2 hciphertext)]
    simp only [if_neg hne, MbedtlsChachapolyContext.returns_ret, ne_eq, not_true_eq_false, if_false]
    exact chachapolyCrypt_at hat.mode hat.aadLen hciphertext hat.chacha20 hpoly piece hlen

theorem mbedtlsChachapolyFinish_at (hat : ChachapolyAt key nonce mode aad input ctx) :
    (mbedtlsChachapolyFinish poly1305Functions ctx).ret = .ok ∧
      (mbedtlsChachapolyFinish poly1305Functions ctx).output =
        tag (block key nonce) aad (ciphertextOf mode key nonce input) := by
  have hkey := length_poly1305Key key nonce
  have htoLE : ∀ n : Nat, toLE 8 (n % 2 ^ 64) = toLE 8 n := toLE_mod 8
  have htext : (ciphertextOf mode key nonce input).length = input.length := by
    cases mode with
    | encrypt => exact length_crypt input
    | decrypt => rfl
  -- both ways of padding lead to the same data
  have hpadded : ∃ p, (if ctx.state = .aad then chachapolyPad poly1305Functions ctx ctx.aadLen
      else if ctx.state = .ciphertext then
        chachapolyPad poly1305Functions ctx ctx.ciphertextLen
      else ctx.returns .ok) = { ctx with poly1305Ctx := p }.returns .ok ∧
      Poly1305At ((block key nonce 0).take 32)
        (aad ++ pad16 aad.length ++
          (ciphertextOf mode key nonce input ++ pad16 input.length)) p := by
    rcases hat.phase with ⟨haad, hinput, hpoly⟩ | ⟨hciphertext, hpoly⟩
    · obtain ⟨p, hpad, hpoly'⟩ := chachapolyPad_spec hkey hpoly hat.aadLen
      refine ⟨p, by rw [if_pos haad, hpad], ?_⟩
      have hnil : ciphertextOf mode key nonce input = [] := by
        subst hinput
        cases mode <;> rfl
      rw [hnil, hinput]
      show Poly1305At _ (aad ++ pad16 aad.length ++ []) p
      rw [List.append_nil]
      exact hpoly'
    · obtain ⟨p, hpad, hpoly'⟩ := chachapolyPad_spec hkey hpoly hat.ciphertextLen
      have hne : ctx.state ≠ .aad := by
        rw [hciphertext]
        decide
      refine ⟨p, by rw [if_neg hne, if_pos hciphertext, hpad], ?_⟩
      rw [← List.append_assoc]
      exact hpoly'
  obtain ⟨p, hpad, hpoly⟩ := hpadded
  have hstate : ctx.state ≠ .init := by
    rcases hat.phase with ⟨h, _⟩ | ⟨h, _⟩ <;> rw [h] <;> decide
  have hlengths := poly1305Update_spec hkey hpoly (toLE 8 ctx.aadLen ++ toLE 8 ctx.ciphertextLen)
  have hfinish := poly1305Finish_spec hkey hlengths
  unfold mbedtlsChachapolyFinish
  rw [if_neg hstate]
  simp only [hpad, MbedtlsChachapolyContext.returns_ret, ne_eq, not_true_eq_false, if_false]
  refine ⟨rfl, ?_⟩
  show (mbedtlsPoly1305Finish (mbedtlsPoly1305Update p
    (toLE 8 ctx.aadLen ++ toLE 8 ctx.ciphertextLen))).2 = _
  rw [hfinish, hat.aadLen, hat.ciphertextLen, htoLE, htoLE]
  unfold tag macData
  rw [htext]

/-! ## Pieces -/

/-- All calls of a run succeed, their outputs are `output`, and the contexts are as above. -/
abbrev ChachapolyRuns (key nonce : ByteString) (mode : ChachapolyMode)
    (aad input output : ByteString)
    (run : MbedtlsChachapolyContext MbedtlsPoly1305Context ×
      List (ChachapolyResult MbedtlsPoly1305Context)) : Prop :=
  (∀ result ∈ run.2, result.ret = .ok) ∧ run.2.flatMap (·.output) = output ∧
    ChachapolyAt key nonce mode aad input run.1

theorem ChachapolyRuns.cons {output output' : ByteString} {result : ChachapolyResult _} {s}
    (hret : result.ret = .ok) (houtput : result.output = output)
    (h : ChachapolyRuns key nonce mode aad input output' s) :
    ChachapolyRuns key nonce mode aad input (output ++ output') (s.1, result :: s.2) := by
  refine ⟨?_, ?_, h.2.2⟩
  · intro r hmem
    rcases List.mem_cons.mp hmem with rfl | hmem
    · exact hret
    · exact h.1 r hmem
  · rw [List.flatMap_cons, houtput, h.2.1]

theorem chachapolyRun_aads (hat : ChachapolyAt key nonce mode aad [] ctx)
    (haad : ctx.state = .aad) (aads : List ByteString) :
    ChachapolyRuns key nonce mode (aad ++ aads.flatten) [] []
      (chachapolyRun poly1305Functions ctx (aads.map fun piece => .call (.updateAad piece))) := by
  induction aads generalizing ctx aad with
  | nil =>
    refine ⟨fun _ h => absurd h List.not_mem_nil, rfl, ?_⟩
    rw [List.flatten_nil, List.append_nil]
    exact hat
  | cons piece aads ih =>
    obtain ⟨hstate, hret, houtput, hat'⟩ := mbedtlsChachapolyUpdateAad_at hat haad piece
    rw [List.flatten_cons, ← List.append_assoc]
    exact .cons hret houtput (ih hat' hstate)

theorem chachapolyRun_inputs (hat : ChachapolyAt key nonce mode aad input ctx)
    (inputs : List ByteString) :
    ChachapolyRuns key nonce mode aad (input ++ inputs.flatten)
      (Bytes.xor inputs.flatten
        (chacha20KeyStream (initialState key nonce 0) (64 + input.length) inputs.flatten.length))
      (chachapolyRun poly1305Functions ctx (inputs.map fun piece => .call (.update piece))) := by
  induction inputs generalizing ctx input with
  | nil =>
    rw [List.flatten_nil, List.append_nil]
    exact ⟨fun _ h => absurd h List.not_mem_nil, rfl, hat⟩
  | cons piece inputs ih =>
    obtain ⟨hret, houtput, hat'⟩ := mbedtlsChachapolyUpdate_at hat piece
    rw [List.flatten_cons, xor_keyStream_append, Nat.add_assoc, ← List.length_append,
      ← List.append_assoc]
    exact .cons hret houtput (ih hat')

theorem chachapolyPieces_at (ctx : MbedtlsChachapolyContext MbedtlsPoly1305Context)
    (key nonce : ByteString) (mode : ChachapolyMode) (aads inputs : List ByteString) :
    ChachapolyRuns key nonce mode aads.flatten inputs.flatten
      (crypt (block key nonce) inputs.flatten)
      (chachapolyRun poly1305Functions (mbedtlsChachapolySetkey ctx key)
        (chachapolyPieces nonce mode aads inputs)) := by
  obtain ⟨hret, houtput, hstarted⟩ := mbedtlsChachapolyStarts_at ctx key nonce mode
  obtain ⟨hrets, houtputs, haads⟩ := chachapolyRun_aads hstarted rfl aads
  obtain ⟨hrets', houtputs', hinputs⟩ := chachapolyRun_inputs haads inputs
  have hcrypt : crypt (block key nonce) ([] ++ _) = _ := crypt_append [] inputs.flatten
  unfold chachapolyPieces
  simp only [chachapolyRun, chachapolyRun_append]
  refine .cons hret houtput (s := (_, _ ++ _)) ⟨?_, ?_, hinputs⟩
  · intro result hmem
    exact (List.mem_append.mp hmem).elim (hrets result) (hrets' result)
  · rw [List.flatMap_append]
    exact (congrArg (· ++ _) houtputs).trans (houtputs'.trans hcrypt.symm)

theorem chachapolyCryptAndTag_eq (ctx : MbedtlsChachapolyContext MbedtlsPoly1305Context)
    (key nonce : ByteString) (mode : ChachapolyMode) (aad input : ByteString) :
    (chachapolyCryptAndTag poly1305Functions (mbedtlsChachapolySetkey ctx key) mode nonce aad
        input).ret = .ok ∧
      (chachapolyCryptAndTag poly1305Functions (mbedtlsChachapolySetkey ctx key) mode nonce aad
        input).output = crypt (block key nonce) input ∧
      (chachapolyCryptAndTag poly1305Functions (mbedtlsChachapolySetkey ctx key) mode nonce aad
        input).tag = tag (block key nonce) aad (ciphertextOf mode key nonce input) := by
  obtain ⟨hstartsRet, _, hstarted⟩ := mbedtlsChachapolyStarts_at ctx key nonce mode
  obtain ⟨_, haadRet, _, haad⟩ := mbedtlsChachapolyUpdateAad_at hstarted rfl aad
  obtain ⟨hret, houtput, hat⟩ := mbedtlsChachapolyUpdate_at haad input
  obtain ⟨hfinish, htag⟩ := mbedtlsChachapolyFinish_at hat
  have hcrypt : crypt (block key nonce) ([] ++ input) = _ := crypt_append [] input
  unfold chachapolyCryptAndTag
  simp only [hstartsRet, haadRet, hret, ne_eq, not_true_eq_false, if_false]
  exact ⟨hfinish, houtput.trans hcrypt.symm, htag⟩

/-! ## The states -/

def ChachapolyState.after : ChachapolyState → ChachapolyAction → ChachapolyState
  | _, .starts _ _ => .aad
  | .aad, .call (.update _) => .ciphertext
  | .aad, .call .finish => .finished
  | .ciphertext, .call .finish => .finished
  | state, _ => state

def ChachapolyAction.IsStarts : ChachapolyAction → Prop
  | .starts _ _ => True
  | _ => False

theorem chachapolyPad_eq (ctx : MbedtlsChachapolyContext MbedtlsPoly1305Context) (len : Nat) :
    ∃ p, chachapolyPad poly1305Functions ctx len = { ctx with poly1305Ctx := p }.returns .ok := by
  unfold chachapolyPad
  split
  · exact ⟨ctx.poly1305Ctx, rfl⟩
  · exact ⟨_, rfl⟩

theorem chachapolyCrypt_state (ctx : MbedtlsChachapolyContext MbedtlsPoly1305Context)
    (input : ByteString) :
    (chachapolyCrypt poly1305Functions ctx input).ctx.state = ctx.state := by
  unfold chachapolyCrypt
  simp only
  split <;> rfl

theorem mbedtlsChachapolyUpdateAad_refused (h : ctx.state ≠ .aad) (piece : ByteString) :
    mbedtlsChachapolyUpdateAad poly1305Functions ctx piece = ctx.returns .badState := by
  unfold mbedtlsChachapolyUpdateAad
  rw [if_pos h]

theorem mbedtlsChachapolyUpdate_refused (h : ctx.state ≠ .aad ∧ ctx.state ≠ .ciphertext)
    (piece : ByteString) :
    mbedtlsChachapolyUpdate poly1305Functions ctx piece = ctx.returns .badState := by
  unfold mbedtlsChachapolyUpdate
  rw [if_pos h]

theorem mbedtlsChachapolyFinish_refused (h : ctx.state = .init) :
    mbedtlsChachapolyFinish poly1305Functions ctx = ctx.returns .badState := by
  unfold mbedtlsChachapolyFinish
  rw [if_pos h]

theorem mbedtlsChachapolyUpdate_state (h : ctx.state = .aad ∨ ctx.state = .ciphertext)
    (piece : ByteString) :
    (mbedtlsChachapolyUpdate poly1305Functions ctx piece).ctx.state = .ciphertext := by
  unfold mbedtlsChachapolyUpdate
  rcases h with haad | hciphertext
  · obtain ⟨p, hpad⟩ := chachapolyPad_eq { ctx with state := .ciphertext } ctx.aadLen
    rw [if_neg (fun h => h.1 haad)]
    simp only [if_pos haad, hpad, MbedtlsChachapolyContext.returns_ret, ne_eq,
      not_true_eq_false, if_false]
    exact chachapolyCrypt_state _ _
  · have hne : ctx.state ≠ .aad := by
      rw [hciphertext]
      decide
    rw [if_neg (fun h => h.2 hciphertext)]
    simp only [if_neg hne, MbedtlsChachapolyContext.returns_ret, ne_eq, not_true_eq_false, if_false]
    exact (chachapolyCrypt_state _ _).trans hciphertext

theorem mbedtlsChachapolyFinish_state (h : ctx.state ≠ .init) :
    (mbedtlsChachapolyFinish poly1305Functions ctx).ctx.state = .finished := by
  have hpadded : ∃ p, (if ctx.state = .aad then chachapolyPad poly1305Functions ctx ctx.aadLen
      else if ctx.state = .ciphertext then
        chachapolyPad poly1305Functions ctx ctx.ciphertextLen
      else ctx.returns .ok) = { ctx with poly1305Ctx := p }.returns .ok := by
    split
    · exact chachapolyPad_eq ctx _
    · split
      · exact chachapolyPad_eq ctx _
      · exact ⟨ctx.poly1305Ctx, rfl⟩
  obtain ⟨p, hpad⟩ := hpadded
  unfold mbedtlsChachapolyFinish
  rw [if_neg h]
  simp only [hpad, MbedtlsChachapolyContext.returns_ret, ne_eq, not_true_eq_false, if_false]
  rfl

theorem mbedtlsChachapolyStarts_state (ctx : MbedtlsChachapolyContext MbedtlsPoly1305Context)
    (nonce : ByteString) (mode : ChachapolyMode) :
    (mbedtlsChachapolyStarts poly1305Functions ctx nonce mode).ctx.state = .aad := by
  unfold mbedtlsChachapolyStarts
  generalize mbedtlsChacha20Update _ _ = generated
  rfl

theorem chachapolyAct_state (ctx : MbedtlsChachapolyContext MbedtlsPoly1305Context)
    (action : ChachapolyAction) :
    (chachapolyAct poly1305Functions ctx action).ctx.state = ctx.state.after action := by
  cases action with
  | setkey key =>
    have hsame : (chachapolyAct poly1305Functions ctx (.setkey key)).ctx.state = ctx.state := rfl
    rw [hsame]
    cases ctx.state <;> rfl
  | starts nonce mode =>
    have haad : (chachapolyAct poly1305Functions ctx (.starts nonce mode)).ctx.state = .aad := by
      unfold chachapolyAct
      exact mbedtlsChachapolyStarts_state ctx nonce mode
    rw [haad]
    generalize ctx.state = state
    cases state <;> rfl
  | call call =>
    cases call with
    | updateAad piece =>
      have hsame : (mbedtlsChachapolyUpdateAad poly1305Functions ctx piece).ctx.state =
          ctx.state := by
        unfold mbedtlsChachapolyUpdateAad
        split <;> rfl
      show (mbedtlsChachapolyUpdateAad poly1305Functions ctx piece).ctx.state = _
      rw [hsame]
      cases ctx.state <;> rfl
    | update piece =>
      show (mbedtlsChachapolyUpdate poly1305Functions ctx piece).ctx.state = _
      cases h : ctx.state with
      | init =>
        rw [mbedtlsChachapolyUpdate_refused (by rw [h]; decide)]
        exact h
      | aad => exact mbedtlsChachapolyUpdate_state (Or.inl h) piece
      | ciphertext => exact mbedtlsChachapolyUpdate_state (Or.inr h) piece
      | finished =>
        rw [mbedtlsChachapolyUpdate_refused (by rw [h]; decide)]
        exact h
    | finish =>
      show (mbedtlsChachapolyFinish poly1305Functions ctx).ctx.state = _
      cases h : ctx.state with
      | init =>
        rw [mbedtlsChachapolyFinish_refused h]
        exact h
      | aad => exact mbedtlsChachapolyFinish_state (by rw [h]; decide)
      | ciphertext => exact mbedtlsChachapolyFinish_state (by rw [h]; decide)
      | finished => exact mbedtlsChachapolyFinish_state (by rw [h]; decide)

theorem chachapolyRun_state {P : ChachapolyState → Prop}
    (hstep : ∀ state action, P state → ¬ action.IsStarts → P (state.after action))
    (actions : List ChachapolyAction) (hactions : ∀ action ∈ actions, ¬ action.IsStarts)
    (h : P ctx.state) : P (chachapolyRun poly1305Functions ctx actions).1.state := by
  induction actions generalizing ctx with
  | nil => exact h
  | cons action actions ih =>
    have hnext : P (chachapolyAct poly1305Functions ctx action).ctx.state := by
      rw [chachapolyAct_state]
      exact hstep _ _ h (hactions action List.mem_cons_self)
    exact ih (fun a ha => hactions a (List.mem_cons_of_mem _ ha)) hnext

theorem chachapolyRun_state_of_mem {P Q : ChachapolyState → Prop}
    (hP : ∀ state action, P state → ¬ action.IsStarts → P (state.after action))
    (hQ : ∀ state action, Q state → ¬ action.IsStarts → Q (state.after action))
    {action : ChachapolyAction} (hact : ∀ state, P state → Q (state.after action))
    {actions : List ChachapolyAction} (hactions : ∀ action ∈ actions, ¬ action.IsStarts)
    (hmem : action ∈ actions) (h : P ctx.state) :
    Q (chachapolyRun poly1305Functions ctx actions).1.state := by
  obtain ⟨pre, post, rfl⟩ := List.append_of_mem hmem
  have hpre := chachapolyRun_state hP pre (fun a ha => hactions a (List.mem_append_left _ ha)) h
  rw [chachapolyRun_append]
  apply chachapolyRun_state hQ post
  · intro a ha
    exact hactions a (List.mem_append_right _ (List.mem_cons_of_mem _ ha))
  · rw [chachapolyAct_state]
    exact hact _ hpre

theorem chachapoly_refuses_before_starts (p₀ : MbedtlsPoly1305Context)
    {actions : List ChachapolyAction} (hactions : ∀ action ∈ actions, ¬ action.IsStarts)
    (call : ChachapolyCall) :
    chachapolyCall poly1305Functions (chachapolyRun poly1305Functions (.init p₀) actions).1 call =
      (chachapolyRun poly1305Functions (.init p₀) actions).1.returns .badState := by
  have hinit : (chachapolyRun poly1305Functions (.init p₀) actions).1.state = .init := by
    apply chachapolyRun_state (P := fun state => state = .init) _ actions hactions rfl
    rintro state action rfl hno
    cases action with
    | setkey key => rfl
    | starts nonce mode => exact absurd trivial hno
    | call call => cases call <;> rfl
  generalize (chachapolyRun poly1305Functions (.init p₀) actions).1 = ctx at hinit ⊢
  cases call with
  | updateAad piece => exact mbedtlsChachapolyUpdateAad_refused (by rw [hinit]; decide) piece
  | update piece => exact mbedtlsChachapolyUpdate_refused (by rw [hinit]; decide) piece
  | finish => exact mbedtlsChachapolyFinish_refused hinit

theorem chachapolyRun_started (ctx : MbedtlsChachapolyContext MbedtlsPoly1305Context)
    (pre post : List ChachapolyAction) (nonce : ByteString) (mode : ChachapolyMode) :
    ∃ started : MbedtlsChachapolyContext MbedtlsPoly1305Context, started.state = .aad ∧
      (chachapolyRun poly1305Functions ctx (pre ++ .starts nonce mode :: post)).1 =
        (chachapolyRun poly1305Functions started post).1 := by
  rw [chachapolyRun_append]
  refine ⟨(mbedtlsChachapolyStarts poly1305Functions (chachapolyRun poly1305Functions ctx pre).1
    nonce mode).ctx, mbedtlsChachapolyStarts_state _ _ _, ?_⟩
  rw [chachapolyRun]
  rfl

theorem ChachapolyState.after_ne_init {state : ChachapolyState} {action : ChachapolyAction}
    (h : state ≠ .init) : state.after action ≠ .init := by
  unfold ChachapolyState.after
  split <;> first | exact h | simp

theorem ChachapolyState.after_text {state : ChachapolyState} {action : ChachapolyAction}
    (h : state = .ciphertext ∨ state = .finished) (hno : ¬ action.IsStarts) :
    state.after action = .ciphertext ∨ state.after action = .finished := by
  unfold ChachapolyState.after
  split
  · exact absurd trivial hno
  · exact Or.inl rfl
  · exact Or.inr rfl
  · exact Or.inr rfl
  · exact h

theorem chachapoly_refuses_aad (ctx : MbedtlsChachapolyContext MbedtlsPoly1305Context)
    (pre : List ChachapolyAction) (nonce : ByteString) (mode : ChachapolyMode)
    {post : List ChachapolyAction} (hpost : ∀ action ∈ post, ¬ action.IsStarts)
    {piece : ByteString} (hmem : .call (.update piece) ∈ post) (aad : ByteString) :
    mbedtlsChachapolyUpdateAad poly1305Functions
        (chachapolyRun poly1305Functions ctx (pre ++ .starts nonce mode :: post)).1 aad =
      (chachapolyRun poly1305Functions ctx (pre ++ .starts nonce mode :: post)).1.returns
        .badState := by
  obtain ⟨started, haad, hrun⟩ := chachapolyRun_started ctx pre post nonce mode
  rw [hrun]
  apply mbedtlsChachapolyUpdateAad_refused
  have hact : ∀ state : ChachapolyState, state ≠ .init →
      state.after (.call (.update piece)) = .ciphertext ∨
        state.after (.call (.update piece)) = .finished := by
    intro state hne
    cases state with
    | init => exact absurd rfl hne
    | aad => exact Or.inl rfl
    | ciphertext => exact Or.inl rfl
    | finished => exact Or.inr rfl
  have hstarted : started.state ≠ .init := by
    rw [haad]
    decide
  have htext := chachapolyRun_state_of_mem (P := fun state => state ≠ .init)
    (Q := fun state => state = .ciphertext ∨ state = .finished)
    (fun state action h _ => ChachapolyState.after_ne_init h)
    (fun state action h hno => ChachapolyState.after_text h hno) hact hpost hmem hstarted
  rcases htext with h | h <;> rw [h] <;> decide

theorem chachapoly_refuses_after_finish (ctx : MbedtlsChachapolyContext MbedtlsPoly1305Context)
    (pre : List ChachapolyAction) (nonce : ByteString) (mode : ChachapolyMode)
    {post : List ChachapolyAction} (hpost : ∀ action ∈ post, ¬ action.IsStarts)
    (hmem : .call .finish ∈ post) (input : ByteString) :
    mbedtlsChachapolyUpdateAad poly1305Functions
        (chachapolyRun poly1305Functions ctx (pre ++ .starts nonce mode :: post)).1 input =
      (chachapolyRun poly1305Functions ctx (pre ++ .starts nonce mode :: post)).1.returns
        .badState ∧
    mbedtlsChachapolyUpdate poly1305Functions
        (chachapolyRun poly1305Functions ctx (pre ++ .starts nonce mode :: post)).1 input =
      (chachapolyRun poly1305Functions ctx (pre ++ .starts nonce mode :: post)).1.returns
        .badState := by
  obtain ⟨started, haad, hrun⟩ := chachapolyRun_started ctx pre post nonce mode
  rw [hrun]
  have hlast : ∀ (state : ChachapolyState) (action : ChachapolyAction), state = .finished →
      ¬ action.IsStarts → state.after action = .finished := by
    rintro state action rfl hno
    cases action with
    | setkey key => rfl
    | starts nonce mode => exact absurd trivial hno
    | call call => cases call <;> rfl
  have hact : ∀ state : ChachapolyState, state ≠ .init →
      state.after (.call .finish) = .finished := by
    intro state hne
    cases state with
    | init => exact absurd rfl hne
    | aad => rfl
    | ciphertext => rfl
    | finished => rfl
  have hstarted : started.state ≠ .init := by
    rw [haad]
    decide
  have hfinished := chachapolyRun_state_of_mem (P := fun state => state ≠ .init)
    (Q := fun state => state = .finished)
    (fun state action h _ => ChachapolyState.after_ne_init h) hlast hact hpost hmem hstarted
  constructor
  · exact mbedtlsChachapolyUpdateAad_refused (by rw [hfinished]; decide) input
  · exact mbedtlsChachapolyUpdate_refused (by rw [hfinished]; decide) input

/-! ## The AEAD -/

theorem mbedtlsChachapolyAuthDecrypt_eq (ctx : MbedtlsChachapolyContext MbedtlsPoly1305Context)
    (key nonce aad tag' input : ByteString) :
    (tag' = tag (block key nonce) aad input →
      (mbedtlsChachapolyAuthDecrypt poly1305Functions (mbedtlsChachapolySetkey ctx key) nonce aad
          tag' input).ret = .crypt .ok ∧
        (mbedtlsChachapolyAuthDecrypt poly1305Functions (mbedtlsChachapolySetkey ctx key) nonce
          aad tag' input).output = crypt (block key nonce) input) ∧
    (tag' ≠ tag (block key nonce) aad input →
      (mbedtlsChachapolyAuthDecrypt poly1305Functions (mbedtlsChachapolySetkey ctx key) nonce aad
          tag' input).ret = .authFailed ∧
        (mbedtlsChachapolyAuthDecrypt poly1305Functions (mbedtlsChachapolySetkey ctx key) nonce
          aad tag' input).output = List.replicate input.length 0) := by
  obtain ⟨hret, houtput, htag⟩ := chachapolyCryptAndTag_eq ctx key nonce .decrypt aad input
  have hcipher : ciphertextOf .decrypt key nonce input = input := rfl
  rw [hcipher] at htag
  unfold mbedtlsChachapolyAuthDecrypt
  simp only [hret, htag, ne_eq, not_true_eq_false, if_false]
  constructor
  · intro heq
    rw [if_neg (not_not_intro heq)]
    exact ⟨rfl, houtput⟩
  · intro hne
    rw [if_pos hne]
    exact ⟨rfl, rfl⟩

/-- The messages of `chachapoly.c` are those of RFC 8439, in one shot and in any pieces, and the
calls that the state does not admit change nothing. -/
theorem chachapoly_aead (ctx : MbedtlsChachapolyContext MbedtlsPoly1305Context) :
    (∀ key nonce mode aads inputs,
      let run := chachapolyRun poly1305Functions (mbedtlsChachapolySetkey ctx key)
        (chachapolyPieces nonce mode aads inputs)
      let finished := mbedtlsChachapolyFinish poly1305Functions run.1
      let oneShot := chachapolyCryptAndTag poly1305Functions (mbedtlsChachapolySetkey ctx key) mode
        nonce aads.flatten inputs.flatten
      (∀ result ∈ run.2, result.ret = .ok) ∧ finished.ret = .ok ∧ oneShot.ret = .ok ∧
        run.2.flatMap (·.output) = crypt (block key nonce) inputs.flatten ∧
        oneShot.output = crypt (block key nonce) inputs.flatten ∧
        finished.output = tag (block key nonce) aads.flatten
          (ciphertextOf mode key nonce inputs.flatten) ∧
        oneShot.tag = tag (block key nonce) aads.flatten
          (ciphertextOf mode key nonce inputs.flatten)) ∧
    (∀ key nonce aad tag' input,
      let decrypted := mbedtlsChachapolyAuthDecrypt poly1305Functions
        (mbedtlsChachapolySetkey ctx key) nonce aad tag' input
      (tag' = tag (block key nonce) aad input →
        decrypted.ret = .crypt .ok ∧ decrypted.output = crypt (block key nonce) input) ∧
      (tag' ≠ tag (block key nonce) aad input →
        decrypted.ret = .authFailed ∧ decrypted.output = List.replicate input.length 0)) ∧
    (∀ (ctx' : MbedtlsChachapolyContext MbedtlsPoly1305Context) key nonce aad input,
      let encrypted := mbedtlsChachapolyEncryptAndTag poly1305Functions
        (mbedtlsChachapolySetkey ctx key) nonce aad input
      let decrypted := mbedtlsChachapolyAuthDecrypt poly1305Functions
        (mbedtlsChachapolySetkey ctx' key) nonce aad encrypted.tag encrypted.output
      encrypted.ret = .ok ∧ decrypted.ret = .crypt .ok ∧ decrypted.output = input) ∧
    (∀ p₀ (actions : List ChachapolyAction) call, (∀ action ∈ actions, ¬ action.IsStarts) →
      let before := (chachapolyRun poly1305Functions (.init p₀) actions).1
      chachapolyCall poly1305Functions before call = before.returns .badState) ∧
    (∀ (pre post : List ChachapolyAction) nonce mode, (∀ action ∈ post, ¬ action.IsStarts) →
      let after := (chachapolyRun poly1305Functions ctx (pre ++ .starts nonce mode :: post)).1
      (∀ piece, .call (.update piece) ∈ post → ∀ aad,
        mbedtlsChachapolyUpdateAad poly1305Functions after aad = after.returns .badState) ∧
      (.call .finish ∈ post → ∀ input,
        mbedtlsChachapolyUpdateAad poly1305Functions after input = after.returns .badState ∧
          mbedtlsChachapolyUpdate poly1305Functions after input = after.returns .badState)) := by
  refine ⟨?_, ?_, ?_, ?_, ?_⟩
  · intro key nonce mode aads inputs
    obtain ⟨hrets, houtput, hat⟩ := chachapolyPieces_at ctx key nonce mode aads inputs
    obtain ⟨hfinish, htag⟩ := mbedtlsChachapolyFinish_at hat
    obtain ⟨hret, houtput', htag'⟩ := chachapolyCryptAndTag_eq ctx key nonce mode aads.flatten
      inputs.flatten
    exact ⟨hrets, hfinish, hret, houtput, houtput', htag, htag'⟩
  · intro key nonce aad tag' input
    exact mbedtlsChachapolyAuthDecrypt_eq ctx key nonce aad tag' input
  · intro ctx' key nonce aad input
    obtain ⟨hret, houtput, htag⟩ := chachapolyCryptAndTag_eq ctx key nonce .encrypt aad input
    have hopen := mbedtlsChachapolyAuthDecrypt_eq ctx' key nonce aad
      (tag (block key nonce) aad (crypt (block key nonce) input)) (crypt (block key nonce) input)
    obtain ⟨hok, hplain⟩ := hopen.1 rfl
    rw [crypt_crypt] at hplain
    unfold mbedtlsChachapolyEncryptAndTag
    simp only [houtput, htag]
    exact ⟨hret, hok, hplain⟩
  · intro p₀ actions call hactions
    exact chachapoly_refuses_before_starts p₀ hactions call
  · intro pre post nonce mode hpost
    constructor
    · intro piece hmem aad
      exact chachapoly_refuses_aad ctx pre nonce mode hpost hmem aad
    · intro hmem input
      exact chachapoly_refuses_after_finish ctx pre nonce mode hpost hmem input

theorem chachapoly_aead_witness :
    (chachapolyCall poly1305Functions
        (chachapolyRun poly1305Functions (.init .init) [.setkey []]).1 .finish).ret = .badState ∧
      (mbedtlsChachapolyUpdateAad poly1305Functions
        (chachapolyRun poly1305Functions (.init .init)
          [.setkey [], .starts [] .encrypt, .call (.update [])]).1 [1]).ret = .badState := by
  obtain ⟨_, _, _, hbefore, hafter⟩ := chachapoly_aead (.init .init)
  constructor
  · rw [hbefore .init [.setkey []] .finish (by simp [ChachapolyAction.IsStarts])]
    rfl
  · have h := (hafter [.setkey []] [.call (.update [])] [] .encrypt
      (by simp [ChachapolyAction.IsStarts])).1 [] List.mem_cons_self [1]
    exact congrArg ChachapolyResult.ret h

end TfPsaCrypto
