import TfPsaCrypto.Builtin.Chachapoly

/-!
# The counter blocks of ChaCha20-Poly1305

The key of Poly1305 comes from counter 0, the key stream from counter 1 on.
-/

namespace TfPsaCrypto

open Bytes CounterStream

/-! ## The position of ChaCha20 -/

theorem chacha20Input_inj {state : Chacha20State} {i j : Nat} :
    chacha20Input state i = chacha20Input state j ↔ i % 2 ^ 32 = j % 2 ^ 32 := by
  unfold chacha20Input
  constructor
  · intro h
    have hword : (state.set 12 (UInt32.ofNat i))[12] = (state.set 12 (UInt32.ofNat j))[12] := by
      rw [h]
    rw [Vector.getElem_set_self, Vector.getElem_set_self] at hword
    simpa using congrArg UInt32.toNat hword
  · intro h
    have hword : UInt32.ofNat i = UInt32.ofNat j := by
      apply UInt32.toNat_inj.mp
      simpa using h
    rw [hword]

def chacha20Log (state : Chacha20State) (a k : Nat) : List (Feed Chacha20State) :=
  (List.range' a k).map fun i => ⟨chacha20Input state i, 0⟩

theorem chacha20Log_append (state : Chacha20State) (a k l : Nat) :
    chacha20Log state a k ++ chacha20Log state (a + k) l = chacha20Log state a (k + l) := by
  unfold chacha20Log
  rw [← List.map_append, List.range'_append_1]

/-- How many bytes of the last block are used at position `pos`. -/
def bytesUsed (pos : Nat) : Nat := if pos % 64 = 0 then 64 else pos % 64

/-- The context at position `pos` of the key stream of `state`. -/
structure Chacha20At (state : Chacha20State) (pos : Nat) (ctx : MbedtlsChacha20Context) : Prop where
  state : ctx.state = chacha20Input state ((pos + 63) / 64)
  keystreamBytesUsed : ctx.keystreamBytesUsed = bytesUsed pos

variable {state : Chacha20State}

theorem Chacha20At.next {ctx : MbedtlsChacha20Context} {pos : Nat} (hat : Chacha20At state pos ctx)
    (hpos : 64 ∣ pos) : Chacha20At state (pos + 64) (chacha20NextBlock ctx) := by
  constructor
  · show ctx.state.set 12 (ctx.state[12] + 1) = _
    simp only [hat.state]
    rw [chacha20Input_succ]
    congr 1
    omega
  · have hused := hat.keystreamBytesUsed
    unfold bytesUsed at hused ⊢
    rw [Nat.add_mod_right]
    exact hused

theorem Chacha20At.drain {ctx : MbedtlsChacha20Context} {pos len leftover : Nat}
    (hat : Chacha20At state pos ctx) (hleft : min (64 - ctx.keystreamBytesUsed) len = leftover)
    (hmore : leftover ≠ len) :
    64 ∣ pos + leftover ∧ (pos + leftover + 63) / 64 = (pos + 63) / 64 ∧
      Chacha20At state (pos + leftover)
        { ctx with keystreamBytesUsed := ctx.keystreamBytesUsed + leftover } := by
  have hused := hat.keystreamBytesUsed
  unfold bytesUsed at hused
  have hpos : 64 ∣ pos + leftover ∧ (pos + leftover + 63) / 64 = (pos + 63) / 64 ∧
      ctx.keystreamBytesUsed + leftover = 64 := by
    split at hused <;> omega
  obtain ⟨hdvd, hindex, hfull⟩ := hpos
  refine ⟨hdvd, hindex, ?_, ?_⟩
  · rw [hindex]
    exact hat.state
  · show ctx.keystreamBytesUsed + leftover = _
    unfold bytesUsed
    rw [hfull, if_pos (Nat.mod_eq_zero_of_dvd hdvd)]

theorem chacha20UpdateLoop_nil (fuel : Nat) (ctx : MbedtlsChacha20Context) :
    chacha20UpdateLoop fuel ctx [] = { ctx := ctx, output := [], log := [] } := by
  cases fuel <;> rfl

theorem chacha20UpdateLoop_spec :
    ∀ fuel ctx pos input, input.length ≤ fuel → 64 ∣ pos → Chacha20At state pos ctx →
      Chacha20At state (pos + input.length) (chacha20UpdateLoop fuel ctx input).ctx ∧
        (chacha20UpdateLoop fuel ctx input).log =
          chacha20Log state (pos / 64) ((input.length + 63) / 64) := by
  intro fuel
  induction fuel with
  | zero =>
    intro ctx pos input hfuel _ hat
    have hinput : input = [] := List.length_eq_zero_iff.mp (by omega)
    subst hinput
    exact ⟨hat, rfl⟩
  | succ fuel ih =>
    intro ctx pos input hfuel hpos hat
    have hstate : ctx.state = chacha20Input state (pos / 64) := by
      rw [hat.state]
      congr 1
      omega
    have hnext : (chacha20NextBlock ctx).state = chacha20Input state (pos / 64 + 1) := by
      show ctx.state.set 12 (ctx.state[12] + 1) = _
      simp only [hstate]
      exact chacha20Input_succ state _
    have hone : [⟨ctx.state, 0⟩] = chacha20Log state (pos / 64) 1 := by
      rw [hstate]
      rfl
    unfold chacha20UpdateLoop
    simp only
    split
    · next hfull =>
      have hlen : (input.drop 64).length = input.length - 64 := List.length_drop
      obtain ⟨hrest, hlog⟩ := ih (chacha20NextBlock ctx) (pos + 64) (input.drop 64)
        (by omega) (by omega) (hat.next hpos)
      have hsum : pos + 64 + (input.drop 64).length = pos + input.length := by omega
      have hindex : (pos + 64) / 64 = pos / 64 + 1 := by omega
      have hcount : (input.length + 63) / 64 = 1 + ((input.drop 64).length + 63) / 64 := by
        omega
      rw [hsum] at hrest
      rw [hlog, hindex, hone, chacha20Log_append, hcount]
      exact ⟨hrest, rfl⟩
    · split
      · next hshort hne =>
        have hcount : (input.length + 63) / 64 = 1 := by omega
        rw [hone, hcount]
        refine ⟨⟨?_, ?_⟩, rfl⟩
        · show (chacha20NextBlock ctx).state = _
          rw [hnext]
          congr 1
          omega
        · show input.length = _
          unfold bytesUsed
          split <;> omega
      · next hne =>
        have hnil : input = [] := List.length_eq_zero_iff.mp (by omega)
        subst hnil
        exact ⟨hat, rfl⟩

theorem mbedtlsChacha20Update_spec {ctx : MbedtlsChacha20Context} {pos : Nat}
    (hat : Chacha20At state pos ctx) (input : ByteString) :
    Chacha20At state (pos + input.length) (mbedtlsChacha20Update ctx input).ctx ∧
      (mbedtlsChacha20Update ctx input).log = chacha20Log state ((pos + 63) / 64)
        ((pos + input.length + 63) / 64 - (pos + 63) / 64) := by
  have hused := hat.keystreamBytesUsed
  unfold bytesUsed at hused
  unfold mbedtlsChacha20Update
  simp only
  generalize hleft : min (64 - ctx.keystreamBytesUsed) input.length = leftover
  have hlen : (input.drop leftover).length = input.length - leftover := List.length_drop
  by_cases hall : leftover = input.length
  · -- the buffered bytes are enough
    have hnil : input.drop leftover = [] := List.drop_eq_nil_of_le (by omega)
    have hcount : (pos + input.length + 63) / 64 = (pos + 63) / 64 := by
      split at hused <;> omega
    rw [hnil, chacha20UpdateLoop_nil, hcount, Nat.sub_self]
    refine ⟨⟨?_, ?_⟩, rfl⟩
    · rw [hcount]
      exact hat.state
    · show ctx.keystreamBytesUsed + leftover = _
      unfold bytesUsed
      split at hused <;> split <;> omega
  · obtain ⟨hdvd, _, hat'⟩ := hat.drain hleft hall
    obtain ⟨hrest, hlog⟩ := chacha20UpdateLoop_spec input.length _ _ (input.drop leftover)
      (by omega) hdvd hat'
    have hsum : pos + leftover + (input.drop leftover).length = pos + input.length := by omega
    rw [hsum] at hrest
    refine ⟨hrest, ?_⟩
    rw [hlog]
    congr 1 <;> omega

/-! ## Runs -/

section Runs

variable {σ : Type*} {poly1305 : Poly1305Functions σ} {ctx : MbedtlsChachapolyContext σ}

theorem chachapolyPoly1305Update_keeps (input : ByteString) :
    (chachapolyPoly1305Update poly1305 ctx input).ctx.chacha20Ctx = ctx.chacha20Ctx ∧
      (chachapolyPoly1305Update poly1305 ctx input).log = [] ∧
      (chachapolyPoly1305Update poly1305 ctx input).ret ≠ .badState := by
  unfold chachapolyPoly1305Update
  split <;> exact ⟨rfl, rfl, by simp [MbedtlsChachapolyContext.returns]⟩

theorem chachapolyPad_keeps (len : Nat) :
    (chachapolyPad poly1305 ctx len).ctx.chacha20Ctx = ctx.chacha20Ctx ∧
      (chachapolyPad poly1305 ctx len).log = [] ∧
      (chachapolyPad poly1305 ctx len).ret ≠ .badState := by
  unfold chachapolyPad
  split
  · exact ⟨rfl, rfl, by simp [MbedtlsChachapolyContext.returns]⟩
  · exact chachapolyPoly1305Update_keeps _

theorem chachapolyCrypt_ret (input : ByteString) :
    (chachapolyCrypt poly1305 ctx input).ret ≠ .badState := by
  unfold chachapolyCrypt
  simp only
  split
  · exact (chachapolyPoly1305Update_keeps _).2.2
  · split
    · exact (chachapolyPoly1305Update_keeps _).2.2
    · exact (chachapolyPoly1305Update_keeps _).2.2

theorem chachapolyCrypt_ok (input : ByteString)
    (hok : (chachapolyCrypt poly1305 ctx input).ret = .ok) :
    (chachapolyCrypt poly1305 ctx input).ctx.chacha20Ctx =
        (mbedtlsChacha20Update ctx.chacha20Ctx input).ctx ∧
      (chachapolyCrypt poly1305 ctx input).log =
        (mbedtlsChacha20Update ctx.chacha20Ctx input).log := by
  unfold chachapolyCrypt at hok ⊢
  simp only at hok ⊢
  by_cases hmode : ctx.mode = .encrypt
  · rw [if_pos hmode]
    exact ⟨(chachapolyPoly1305Update_keeps _).1, rfl⟩
  rw [if_neg hmode] at hok ⊢
  split at hok
  · next hbad => exact absurd hok hbad
  · next hgood =>
    rw [if_neg hgood]
    exact ⟨rfl, rfl⟩

theorem mbedtlsChachapolyFinish_keeps :
    (mbedtlsChachapolyFinish poly1305 ctx).ctx.chacha20Ctx = ctx.chacha20Ctx ∧
      (mbedtlsChachapolyFinish poly1305 ctx).log = [] := by
  have hpadded : ∀ padded, padded = (if ctx.state = .aad then
      chachapolyPad poly1305 ctx ctx.aadLen
      else if ctx.state = .ciphertext then chachapolyPad poly1305 ctx ctx.ciphertextLen
      else ctx.returns .ok) → padded.ctx.chacha20Ctx = ctx.chacha20Ctx ∧ padded.log = [] := by
    rintro padded rfl
    split
    · exact ⟨(chachapolyPad_keeps _).1, (chachapolyPad_keeps _).2.1⟩
    · split
      · exact ⟨(chachapolyPad_keeps _).1, (chachapolyPad_keeps _).2.1⟩
      · exact ⟨rfl, rfl⟩
  unfold mbedtlsChachapolyFinish
  split
  · exact ⟨rfl, rfl⟩
  simp only
  generalize (if ctx.state = .aad then chachapolyPad poly1305 ctx ctx.aadLen
    else if ctx.state = .ciphertext then chachapolyPad poly1305 ctx ctx.ciphertextLen
    else ctx.returns .ok) = padded at hpadded ⊢
  obtain ⟨hctx, hlog⟩ := hpadded padded rfl
  split
  · exact ⟨hctx, hlog⟩
  have hlengths : ∀ input, (chachapolyPoly1305Update poly1305
      { padded.ctx with state := .finished } input).ctx.chacha20Ctx = ctx.chacha20Ctx :=
    fun input => (chachapolyPoly1305Update_keeps input).1.trans hctx
  split
  · exact ⟨hlengths _, (chachapolyPoly1305Update_keeps _).2.1⟩
  · split
    · exact ⟨hlengths _, rfl⟩
    · exact ⟨hlengths _, rfl⟩

def chachapolyAccepted (σ : Type*) :
    (ChachapolyCall × Poly1305Functions σ) × ChachapolyResult σ → Nat
  | ((.update input, _), r) => if r.ret = .ok then input.length else 0
  | _ => 0

def chachapolyLength (tr : List ((ChachapolyCall × Poly1305Functions σ) × ChachapolyResult σ)) :
    Nat :=
  (tr.map (chachapolyAccepted σ)).sum

def chachapolyLog (tr : List ((ChachapolyCall × Poly1305Functions σ) × ChachapolyResult σ)) :
    List (Feed Chacha20State) :=
  tr.flatMap (·.2.log)

theorem chachapolyCall_spec {pos : Nat} (hat : Chacha20At state pos ctx.chacha20Ctx)
    (call : ChachapolyCall)
    (hpoly : ∀ code, (chachapolyCall poly1305 ctx call).ret ≠ .poly1305 code) :
    Chacha20At state
        (pos + chachapolyAccepted σ ((call, poly1305), chachapolyCall poly1305 ctx call))
        (chachapolyCall poly1305 ctx call).ctx.chacha20Ctx ∧
      (chachapolyCall poly1305 ctx call).log = chacha20Log state ((pos + 63) / 64)
        ((pos + chachapolyAccepted σ ((call, poly1305), chachapolyCall poly1305 ctx call) + 63) /
            64 -
          (pos + 63) / 64) := by
  have hkeep : ∀ r : ChachapolyResult σ, r.ctx.chacha20Ctx = ctx.chacha20Ctx → r.log = [] →
      Chacha20At state (pos + 0) r.ctx.chacha20Ctx ∧
        r.log = chacha20Log state ((pos + 63) / 64) ((pos + 0 + 63) / 64 - (pos + 63) / 64) := by
    intro r hctx hlog
    rw [hctx, hlog, Nat.add_zero, Nat.sub_self]
    exact ⟨hat, rfl⟩
  cases call with
  | updateAad aad =>
    apply hkeep
    · show (mbedtlsChachapolyUpdateAad poly1305 ctx aad).ctx.chacha20Ctx = _
      unfold mbedtlsChachapolyUpdateAad
      split
      · rfl
      · exact (chachapolyPoly1305Update_keeps _).1
    · show (mbedtlsChachapolyUpdateAad poly1305 ctx aad).log = _
      unfold mbedtlsChachapolyUpdateAad
      split
      · rfl
      · exact (chachapolyPoly1305Update_keeps _).2.1
  | update input =>
    show Chacha20At state (pos + if (mbedtlsChachapolyUpdate poly1305 ctx input).ret = .ok then
        input.length else 0) (mbedtlsChachapolyUpdate poly1305 ctx input).ctx.chacha20Ctx ∧
      (mbedtlsChachapolyUpdate poly1305 ctx input).log = chacha20Log state ((pos + 63) / 64)
        ((pos + (if (mbedtlsChachapolyUpdate poly1305 ctx input).ret = .ok then
          input.length else 0) + 63) / 64 - (pos + 63) / 64)
    have hpoly' : ∀ code, (mbedtlsChachapolyUpdate poly1305 ctx input).ret ≠ .poly1305 code := hpoly
    generalize hr : mbedtlsChachapolyUpdate poly1305 ctx input = r at hpoly' ⊢
    unfold mbedtlsChachapolyUpdate at hr
    split at hr
    · rw [← hr]
      exact hkeep _ rfl rfl
    have hpadded : ∀ padded, padded = (if ctx.state = .aad then
        chachapolyPad poly1305 { ctx with state := .ciphertext } ctx.aadLen
        else ctx.returns .ok) →
          padded.ctx.chacha20Ctx = ctx.chacha20Ctx ∧ padded.ret ≠ .badState := by
      rintro padded rfl
      split
      · exact ⟨(chachapolyPad_keeps _).1, (chachapolyPad_keeps _).2.2⟩
      · exact ⟨rfl, by simp [MbedtlsChachapolyContext.returns]⟩
    simp only at hr
    generalize (if ctx.state = .aad then
      chachapolyPad poly1305 { ctx with state := .ciphertext } ctx.aadLen
      else ctx.returns .ok) = padded at hpadded hr
    obtain ⟨hctx, hret⟩ := hpadded padded rfl
    -- no failure of Poly1305 is left
    have hall : ∀ r : ChachapolyResult σ, r.ret ≠ .badState →
        (∀ code, r.ret ≠ .poly1305 code) → r.ret = .ok := by
      intro r hstate hcode
      cases hret : r.ret with
      | ok => rfl
      | badState => exact absurd hret hstate
      | poly1305 code => exact absurd hret (hcode code)
    split at hr
    · next hbad =>
      subst hr
      exact absurd (hall _ hret hpoly') hbad
    subst hr
    have hok := hall _ (chachapolyCrypt_ret input) hpoly'
    obtain ⟨hcrypt, hlog⟩ := chachapolyCrypt_ok input hok
    rw [if_pos hok, hcrypt, hlog]
    simp only [hctx]
    exact mbedtlsChacha20Update_spec hat input
  | finish => exact hkeep _ mbedtlsChachapolyFinish_keeps.1 mbedtlsChachapolyFinish_keeps.2

theorem mbedtlsChachapolyStarts_spec (poly1305 : Poly1305Functions σ)
    (ctx : MbedtlsChachapolyContext σ) (nonce : ByteString) (mode : ChachapolyMode) :
    ∃ state, Chacha20At state 64 (mbedtlsChachapolyStarts poly1305 ctx nonce mode).ctx.chacha20Ctx ∧
      (mbedtlsChachapolyStarts poly1305 ctx nonce mode).log = chacha20Log state 0 1 := by
  have hzero : chacha20Input (mbedtlsChacha20Starts ctx.chacha20Ctx nonce 0).state 0 =
      (mbedtlsChacha20Starts ctx.chacha20Ctx nonce 0).state := by
    unfold chacha20Input mbedtlsChacha20Starts
    apply Vector.ext
    intro i hi
    rw [Vector.getElem_set]
    split
    · next h =>
      subst h
      simp
    · rfl
  have hat : Chacha20At (mbedtlsChacha20Starts ctx.chacha20Ctx nonce 0).state 0
      (mbedtlsChacha20Starts ctx.chacha20Ctx nonce 0) := ⟨hzero.symm, rfl⟩
  obtain ⟨hat', hlog⟩ := mbedtlsChacha20Update_spec hat (List.replicate 64 0)
  refine ⟨(mbedtlsChacha20Starts ctx.chacha20Ctx nonce 0).state, ?_, ?_⟩
  · unfold mbedtlsChachapolyStarts
    simp only
    split <;> exact hat'
  · unfold mbedtlsChachapolyStarts
    simp only
    split <;> exact hlog

theorem chachapoly_noReuse_iff {ctx₀ : MbedtlsChachapolyContext σ} {nonce : ByteString}
    {mode : ChachapolyMode}
    {tr : List ((ChachapolyCall × Poly1305Functions σ) × ChachapolyResult σ)}
    (hrun : Machine.Run (chachapolyMachine σ)
      (mbedtlsChachapolyStarts poly1305 ctx₀ nonce mode).ctx tr ctx)
    (hpoly : ∀ ev ∈ tr, ∀ code, ev.2.ret ≠ .poly1305 code) :
    NoReuse ((mbedtlsChachapolyStarts poly1305 ctx₀ nonce mode).log ++ chachapolyLog tr) ↔
      chachapolyLength tr ≤ 64 * (2 ^ 32 - 1) := by
  obtain ⟨state, hat, hlog⟩ := mbedtlsChachapolyStarts_spec poly1305 ctx₀ nonce mode
  have hinit : Chacha20At state (64 + chachapolyLength (σ := σ) [])
        (mbedtlsChachapolyStarts poly1305 ctx₀ nonce mode).ctx.chacha20Ctx ∧
      (mbedtlsChachapolyStarts poly1305 ctx₀ nonce mode).log ++ chachapolyLog (σ := σ) [] =
        chacha20Log state 0 ((64 + chachapolyLength (σ := σ) [] + 63) / 64) := by
    refine ⟨hat, ?_⟩
    rw [hlog]
    simp [chachapolyLength, chachapolyLog]
  have hinv := Machine.Run.invariant (I := fun tr (ctx : MbedtlsChachapolyContext σ) =>
      Chacha20At state (64 + chachapolyLength tr) ctx.chacha20Ctx ∧
        (mbedtlsChachapolyStarts poly1305 ctx₀ nonce mode).log ++ chachapolyLog tr =
          chacha20Log state 0 ((64 + chachapolyLength tr + 63) / 64))
    (P := fun ev => ∀ code, ev.2.ret ≠ .poly1305 code) hinit ?_ hrun hpoly
  · obtain ⟨_, hall⟩ := hinv
    rw [hall]
    unfold chacha20Log
    rw [← List.range_eq_range', noReuse_blocks_iff,
      nodup_range_iff (m := 2 ^ 32) (by decide) fun i j => chacha20Input_inj]
    omega
  · intro tr ctx a ctx' r h hcode hstep
    obtain ⟨hat, hlog⟩ := h
    obtain ⟨rfl, rfl⟩ := hstep
    obtain ⟨hat', hlog'⟩ := chachapolyCall_spec hat a.1 hcode
    have hlength : chachapolyLength (tr ++ [(a, chachapolyCall a.2 ctx a.1)]) =
        chachapolyLength tr + chachapolyAccepted σ (a, chachapolyCall a.2 ctx a.1) := by
      simp [chachapolyLength]
    have hlogs : chachapolyLog (tr ++ [(a, chachapolyCall a.2 ctx a.1)]) =
        chachapolyLog tr ++ (chachapolyCall a.2 ctx a.1).log := by
      simp [chachapolyLog]
    rw [hlength, hlogs, ← List.append_assoc, hlog, hlog', ← Nat.add_assoc]
    refine ⟨hat', ?_⟩
    have happend := chacha20Log_append state 0 ((64 + chachapolyLength tr + 63) / 64)
      ((64 + chachapolyLength tr + chachapolyAccepted σ (a, chachapolyCall a.2 ctx a.1) + 63) / 64 -
        (64 + chachapolyLength tr + 63) / 64)
    rw [Nat.zero_add] at happend
    rw [happend]
    congr 1
    omega

end Runs

end TfPsaCrypto
