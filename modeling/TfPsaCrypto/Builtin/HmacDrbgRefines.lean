import TfPsaCrypto.Builtin.HmacDrbg

/-!
# HMAC_DRBG refines SP 800-90A

The key that is implicit in the HMAC context and `V` are the working state. Every call is a step of
the standard's instance from this state.
-/

namespace TfPsaCrypto

open Bytes

namespace HmacDrbg

variable {σ : Type} {md : Md} {sizeMod : Nat} {fEntropy : Drbg.Source σ} {ctx : Context σ}

/-! ## The instance of a context -/

def Context.working (ctx : Context σ) : Drbg.HmacState := ⟨ctx.mdCtx.key, ctx.v⟩

def Context.toInstance (ctx : Context σ) : Drbg.Instance Drbg.HmacState σ where
  working := ctx.working
  served := ctx.reseedCounter
  interval := ctx.reseedInterval
  predictionResistance := ctx.predictionResistance = prOn
  entropyLen := ctx.entropyLen
  source := ctx.pEntropy

def limits : Drbg.Limits :=
  { request := maxRequest, input := maxInput, reseedInput := maxInput, seed := maxSeedInput }

def Call.toCall : Call → Drbg.Call
  | .randomWithAdd outLen additional => .generate outLen (additional.getD [])
  | .reseed additional => .reseed (additional.getD [])
  | .update additional => .update (additional.getD [])
  | .setPredictionResistance resistance => .setPredictionResistance (resistance = prOn)
  | .setEntropyLen len => .setEntropyLen len
  | .setReseedInterval interval => .setReseedInterval interval

def Error.toFailure : Error → Drbg.Failure
  | .requestTooBig => .requestTooBig
  | .inputTooBig => .inputTooBig
  | .entropySourceFailed => .entropySourceFailed

def Result.toOut (r : Result) : Drbg.Out where
  ret := match r.ret with
    | .ok _ => .ok r.output
    | .error e => .error e.toFailure
  reseeded := r.reseeded

def withWorking (I : Drbg.Instance Drbg.HmacState σ) (s : Drbg.HmacState) :
    Drbg.Instance Drbg.HmacState σ := { I with working := s }

/-! ## The functions -/

theorem given_iff {additional : Option ByteString} :
    (additional ≠ none ∧ (additional.getD []).length ≠ 0) ↔ additional.getD [] ≠ [] := by
  cases additional with
  | none => simp
  | some data => simp

theorem updateRound_toInstance (rounds : Nat) (additional : ByteString) (ctx : Context σ)
    (sep : Nat) :
    (updateRound md rounds additional ctx sep).toInstance =
      withWorking ctx.toInstance
        ⟨md.hmac ctx.mdCtx.key
            (ctx.v ++ [UInt8.ofNat sep] ++ if rounds = 2 then additional else []),
          md.hmac (md.hmac ctx.mdCtx.key
            (ctx.v ++ [UInt8.ofNat sep] ++ if rounds = 2 then additional else [])) ctx.v⟩ := by
  by_cases h : rounds = 2
  · simp only [updateRound, if_pos h]
    rfl
  · simp only [updateRound, if_neg h, List.append_nil]
    rfl

theorem hmacDrbgUpdate_toInstance (ctx : Context σ) (additional : Option ByteString) :
    (hmacDrbgUpdate md ctx additional).toInstance =
      withWorking ctx.toInstance (Drbg.hmacUpdate md.hmac (additional.getD []) ctx.working) := by
  unfold hmacDrbgUpdate Drbg.hmacUpdate
  by_cases h : additional.getD [] = []
  · have hnot : ¬ (additional ≠ none ∧ (additional.getD []).length ≠ 0) :=
      given_iff.not.mpr (not_not.mpr h)
    simp only [if_neg hnot, if_pos h]
    rw [h, List.range_one, List.foldl_cons, List.foldl_nil, updateRound_toInstance]
    rfl
  · simp only [if_pos (given_iff.mpr h), if_neg h]
    rw [show List.range 2 = [0, 1] from rfl, List.foldl_cons, List.foldl_cons, List.foldl_nil,
      updateRound_toInstance]
    rfl

theorem generateBytes_eq (left : Nat) (ctx : Context σ) :
    (generateBytes md ctx left).1.toInstance =
        withWorking ctx.toInstance
          ⟨ctx.mdCtx.key, (md.hmac ctx.mdCtx.key)^[Drbg.blockCount md.size left] ctx.v⟩ ∧
      (generateBytes md ctx left).2 =
        (Drbg.hmacBlocks md.hmac ctx.mdCtx.key ctx.v (Drbg.blockCount md.size left)).flatten.take
          left := by
  induction left using Nat.strong_induction_on generalizing ctx with
  | _ left ih =>
    unfold generateBytes
    by_cases hzero : left = 0
    · subst hzero
      rw [if_pos rfl, Drbg.blockCount_zero md.size_pos]
      exact ⟨rfl, rfl⟩
    have hpos := md.size_pos
    have huse : left - (if left > md.size then md.size else left) = left - md.size := by
      split <;> omega
    have hlen := md.length_hmac ctx.mdCtx.key ctx.v
    have htake : (md.hmac ctx.mdCtx.key ctx.v).take (if left > md.size then md.size else left) =
        (md.hmac ctx.mdCtx.key ctx.v).take left := by
      by_cases hgt : left > md.size
      · rw [if_pos hgt, List.take_of_length_le (Nat.le_of_eq hlen),
          List.take_of_length_le (by omega)]
      · rw [if_neg hgt]
    rw [if_neg hzero, Drbg.blockCount_pos hpos (Nat.pos_of_ne_zero hzero),
      Drbg.hmacBlocks_succ, Function.iterate_succ_apply, List.flatten_cons, List.take_append,
      hlen]
    simp only [mdHmacFinish, mdHmacUpdate, mdHmacReset, List.nil_append, huse, htake]
    obtain ⟨hctx, hout⟩ := ih (left - md.size) (by omega)
      { ctx with
          mdCtx := ⟨ctx.mdCtx.key, md.leftover ctx.mdCtx.key ctx.v⟩
          v := md.hmac ctx.mdCtx.key ctx.v }
    rw [hctx, hout]
    exact ⟨rfl, rfl⟩

theorem randomTail_toInstance (ctx : Context σ) (outLen : Nat) (additional : Option ByteString)
    (reseeded : Bool) :
    ((randomTail md ctx outLen additional reseeded).1.toInstance,
        (randomTail md ctx outLen additional reseeded).2.toOut) =
      Drbg.serve (Drbg.hmacMechanism md.hmac md.size) ctx.toInstance outLen (additional.getD [])
        reseeded := by
  have hfirst : (if additional ≠ none ∧ (additional.getD []).length ≠ 0 then
      hmacDrbgUpdate md ctx additional else ctx).toInstance =
        withWorking ctx.toInstance (if additional.getD [] = [] then ctx.working
          else Drbg.hmacUpdate md.hmac (additional.getD []) ctx.working) := by
    by_cases h : additional.getD [] = []
    · rw [if_neg (given_iff.not.mpr (not_not.mpr h)), if_pos h]
      rfl
    · rw [if_pos (given_iff.mpr h), if_neg h, hmacDrbgUpdate_toInstance]
  unfold randomTail Drbg.serve
  simp only
  generalize (if additional ≠ none ∧ (additional.getD []).length ≠ 0 then
    hmacDrbgUpdate md ctx additional else ctx) = ctx₁ at hfirst ⊢
  have hworking₁ : ctx₁.working = _ := congrArg Drbg.Instance.working hfirst
  obtain ⟨hgen, hout⟩ := @generateBytes_eq _ md outLen ctx₁
  generalize generateBytes md ctx₁ outLen = generated at hgen hout ⊢
  have hworking₂ : generated.1.working = _ := congrArg Drbg.Instance.working hgen
  have hupdate := @hmacDrbgUpdate_toInstance _ md generated.1 additional
  generalize hmacDrbgUpdate md generated.1 additional = ctx₂ at hupdate ⊢
  have hlast : ({ ctx₂ with reseedCounter := ctx₂.reseedCounter + 1 } : Context σ).toInstance =
      { ctx₂.toInstance with served := ctx₂.toInstance.served + 1 } := rfl
  have hkey : ctx₁.mdCtx.key = ctx₁.working.K := rfl
  have hv : ctx₁.v = ctx₁.working.V := rfl
  rw [hlast, hupdate, hworking₂, hgen, hfirst, hkey, hv, hworking₁]
  rw [hkey, hv, hworking₁] at hout
  simp only [Result.toOut, hout]
  rfl

theorem inputTooBig_iff (hsize : 2 ^ 16 ≤ sizeMod) {entropyLen len : Nat}
    (hentropy : entropyLen ≤ maxSeedInput) :
    (len > maxInput ∨ (entropyLen + len) % sizeMod > maxSeedInput) ↔
      (limits.reseedInput < len ∨ limits.seed < entropyLen + len) := by
  unfold limits
  by_cases hlen : len > maxInput
  · exact ⟨fun _ => .inl hlen, fun _ => .inl hlen⟩
  · unfold maxInput maxSeedInput at *
    have hlt : entropyLen + len < sizeMod := by omega
    rw [Nat.mod_eq_of_lt hlt]

theorem hmacDrbgReseed_toInstance (hsize : 2 ^ 16 ≤ sizeMod)
    (hentropy : ctx.entropyLen ≤ maxSeedInput) (additional : Option ByteString) :
    (hmacDrbgReseed md sizeMod fEntropy ctx additional).map
        (fun r => (r.1.toInstance, r.2.mapError Error.toFailure)) =
      Drbg.reseed (Drbg.hmacMechanism md.hmac md.size) limits fEntropy ctx.toInstance
        (additional.getD []) := by
  unfold hmacDrbgReseed hmacDrbgReseedCore
  simp only [if_true]
  by_cases hbig : (additional.getD []).length > maxInput ∨
      (ctx.entropyLen + (additional.getD []).length) % sizeMod > maxSeedInput
  · rw [if_pos hbig, Drbg.reseed_tooBig ((inputTooBig_iff hsize hentropy).mp hbig)]
    rfl
  · have hfits := (inputTooBig_iff hsize hentropy).not.mp hbig
    rw [if_neg hbig]
    cases hsource : ctx.pEntropy with
    | none =>
      exact (Drbg.reseed_no_source (I := ctx.toInstance) hfits hsource).symm
    | some pEntropy =>
      simp only
      rcases hget : fEntropy pEntropy ctx.entropyLen with ⟨_ | entropy, pEntropy'⟩
      · exact (Drbg.reseed_failed (I := ctx.toInstance) hfits hsource hget).symm
      rw [Drbg.reseed_ok (I := ctx.toInstance) hfits hsource hget]
      simp only [gatherNonce, Bool.false_eq_true, if_false, List.append_nil, Option.map_some]
      have hupdate := @hmacDrbgUpdate_toInstance _ md
        { ctx with pEntropy := some pEntropy' } (some (entropy.toList ++ additional.getD []))
      generalize hmacDrbgUpdate md { ctx with pEntropy := some pEntropy' }
        (some (entropy.toList ++ additional.getD [])) = ctx' at hupdate ⊢
      have hlast : ({ ctx' with reseedCounter := 0 } : Context σ).toInstance =
          { ctx'.toInstance with served := 0 } := rfl
      rw [hlast, hupdate]
      rfl

/-! ## Calls -/

def Call.Fits : Call → Prop
  | .setEntropyLen len => len ≤ maxSeedInput
  | _ => True

theorem drbgMachine_toInstance (hsize : 2 ^ 16 ≤ sizeMod)
    (hentropy : ctx.entropyLen ≤ maxSeedInput) (call : Call) :
    (drbgMachine md sizeMod fEntropy ctx call).map (fun r => (r.1.toInstance, r.2.toOut)) =
      Drbg.step (Drbg.hmacMechanism md.hmac md.size) limits fEntropy ctx.toInstance
        call.toCall := by
  cases call with
  | randomWithAdd outLen additional =>
    have hreseed := @hmacDrbgReseed_toInstance _ md _ fEntropy _ hsize hentropy additional
    simp only [drbgMachine, Call.toCall, Drbg.step]
    unfold hmacDrbgRandomWithAdd Drbg.generate
    by_cases hrequest : outLen > maxRequest
    · rw [if_pos hrequest, if_pos (show limits.request < outLen from hrequest)]
      rfl
    rw [if_neg hrequest, if_neg (show ¬ limits.request < outLen from hrequest)]
    by_cases hinput : (additional.getD []).length > maxInput
    · rw [if_pos hinput, if_pos (show limits.input < _ from hinput)]
      rfl
    rw [if_neg hinput, if_neg (show ¬ limits.input < _ from hinput)]
    by_cases hneeded : ctx.pEntropy ≠ none ∧
        (ctx.predictionResistance = prOn ∨ ctx.reseedCounter ≥ ctx.reseedInterval)
    · have hneeded' : ctx.toInstance.source.isSome = true ∧
          (ctx.toInstance.predictionResistance = true ∨
            ctx.toInstance.interval ≤ ctx.toInstance.served) :=
        ⟨Option.isSome_iff_ne_none.mpr hneeded.1, hneeded.2.imp_left decide_eq_true⟩
      rw [if_pos hneeded, if_pos hneeded', ← hreseed]
      rcases hmacDrbgReseed md sizeMod fEntropy ctx additional with _ | ⟨ctx', e | _⟩
      · rfl
      · rfl
      · have hdata : (additional.map fun _ => ([] : ByteString)).getD [] = [] := by
          cases additional <;> rfl
        simp only [Option.map_some, Except.mapError, randomTail_toInstance, hdata]
    · have hneeded' : ¬ (ctx.toInstance.source.isSome = true ∧
          (ctx.toInstance.predictionResistance = true ∨
            ctx.toInstance.interval ≤ ctx.toInstance.served)) := by
        rintro ⟨hsome, hor⟩
        exact hneeded ⟨Option.isSome_iff_ne_none.mp hsome, hor.imp_left of_decide_eq_true⟩
      rw [if_neg hneeded, if_neg hneeded', Option.map_some, randomTail_toInstance]
  | reseed additional =>
    have hreseed := @hmacDrbgReseed_toInstance _ md _ fEntropy _ hsize hentropy additional
    simp only [drbgMachine, Call.toCall, Drbg.step]
    rw [← hreseed]
    rcases hmacDrbgReseed md sizeMod fEntropy ctx additional with _ | ⟨ctx', e | _⟩
    · rfl
    · rfl
    · rfl
  | update additional =>
    simp only [drbgMachine, Option.map_some, hmacDrbgUpdate_toInstance]
    rfl
  | setPredictionResistance resistance => rfl
  | setEntropyLen len => rfl
  | setReseedInterval interval => rfl

theorem hmacDrbgRandomWithAdd_cases {outLen : Nat} {additional : Option ByteString}
    {ctx' : Context σ} {r : Result}
    (h : hmacDrbgRandomWithAdd md sizeMod fEntropy ctx outLen additional = some (ctx', r)) :
    (∃ e, r = ⟨.error e, [], false⟩) ∨
      ∃ ctx₁ data reseeded, (ctx', r) = randomTail md ctx₁ outLen data reseeded := by
  unfold hmacDrbgRandomWithAdd at h
  split at h
  · cases h
    exact .inl ⟨_, rfl⟩
  split at h
  · cases h
    exact .inl ⟨_, rfl⟩
  split at h
  · split at h
    · cases h
    · cases h
      exact .inl ⟨_, rfl⟩
    · exact .inr ⟨_, _, _, (Option.some.inj h).symm⟩
  · exact .inr ⟨_, _, _, (Option.some.inj h).symm⟩

theorem length_generateBytes (ctx : Context σ) (outLen : Nat) :
    (generateBytes md ctx outLen).2.length = outLen := by
  rw [(generateBytes_eq outLen ctx).2, List.length_take, Drbg.length_hmacBlocks
    (md.length_hmac ctx.mdCtx.key)]
  exact Nat.min_eq_left (Drbg.le_mul_blockCount md.size_pos outLen)

theorem drbgMachine_output {call : Call} {ctx' : Context σ} {r : Result}
    (h : drbgMachine md sizeMod fEntropy ctx call = some (ctx', r)) :
    (∀ e, r.ret = .error e → r.output = []) ∧
      ∀ outLen additional, call = .randomWithAdd outLen additional → r.ret = .ok () →
        r.output.length = outLen := by
  cases call with
  | randomWithAdd outLen additional =>
    rcases hmacDrbgRandomWithAdd_cases h with ⟨e, rfl⟩ | ⟨ctx₁, data, reseeded, heq⟩
    · refine ⟨fun _ _ => rfl, ?_⟩
      intro _ _ _ hok
      cases hok
    have hr : r = (randomTail md ctx₁ outLen data reseeded).2 := congrArg Prod.snd heq
    subst hr
    constructor
    · intro e he
      cases he
    · intro n a hcall _
      cases hcall
      exact length_generateBytes _ outLen
  | reseed additional =>
    refine ⟨?_, by intro _ _ hcall; cases hcall⟩
    intro e he
    simp only [drbgMachine] at h
    split at h
    · cases h
    · cases h
      rfl
    · cases h
      rfl
  | update additional =>
    cases h
    exact ⟨fun _ _ => rfl, by intro _ _ hcall; cases hcall⟩
  | setPredictionResistance resistance =>
    cases h
    exact ⟨fun _ _ => rfl, by intro _ _ hcall; cases hcall⟩
  | setEntropyLen len =>
    cases h
    exact ⟨fun _ _ => rfl, by intro _ _ hcall; cases hcall⟩
  | setReseedInterval interval =>
    cases h
    exact ⟨fun _ _ => rfl, by intro _ _ hcall; cases hcall⟩

/-! ## Seeding -/

structure Fresh (md : Md) (ctx : Context σ) : Prop where
  v : ctx.v = List.replicate md.size 0
  reseedCounter : ctx.reseedCounter = 0
  pEntropy : ctx.pEntropy = none

theorem hmacDrbgSeedBuf_toInstance (hfresh : Fresh md ctx) (data : ByteString) :
    (hmacDrbgSeedBuf md ctx data).toInstance =
      withWorking ctx.toInstance (Drbg.hmacInstantiate md.hmac md.size data) := by
  unfold hmacDrbgSeedBuf
  rw [hmacDrbgUpdate_toInstance, hfresh.v]
  rfl

def seedEntropyLen (md : Md) (ctx : Context σ) : Nat :=
  if ctx.entropyLen = 0 then if md.size ≤ 20 then 16 else if md.size ≤ 28 then 24 else 32
  else ctx.entropyLen

theorem seedEntropyLen_le (hentropy : ctx.entropyLen ≤ maxSeedInput) :
    seedEntropyLen md ctx ≤ maxSeedInput := by
  unfold seedEntropyLen
  split
  · split
    · decide
    · split <;> decide
  · exact hentropy

theorem hmacDrbgSeed_toInstance (hfresh : Fresh md ctx) {pEntropy : σ}
    {custom : Option ByteString} {ctx' : Context σ}
    (h : hmacDrbgSeed md sizeMod fEntropy ctx pEntropy custom = some (ctx', .ok ())) :
    ∃ entropy nonce p₁ p₂,
      fEntropy pEntropy (seedEntropyLen md ctx) = (some entropy, p₁) ∧
        fEntropy p₁ (seedEntropyLen md ctx / 2) = (some nonce, p₂) ∧
        ctx'.toInstance =
          { working := Drbg.hmacInstantiate md.hmac md.size
              (entropy.toList ++ nonce.toList ++ custom.getD [])
            served := 0
            interval := ctx.reseedInterval
            predictionResistance := ctx.predictionResistance = prOn
            entropyLen := seedEntropyLen md ctx
            source := some p₂ } := by
  unfold hmacDrbgSeed at h
  simp only at h
  have hlen : (if ctx.entropyLen = 0 then
      if md.size ≤ 20 then 16 else if md.size ≤ 28 then 24 else 32 else ctx.entropyLen) =
        seedEntropyLen md ctx := rfl
  rw [hlen] at h
  generalize seedEntropyLen md ctx = n at h ⊢
  unfold hmacDrbgReseedCore at h
  simp only [Bool.true_eq_false, if_false] at h
  split at h
  · cases h
  rcases hentropy : fEntropy pEntropy n with ⟨_ | entropy, p₁⟩
  · rw [hentropy] at h
    cases h
  rcases hnonce : fEntropy p₁ (n / 2) with ⟨_ | nonce, p₂⟩
  · simp only [hentropy, gatherNonce, if_true, hnonce] at h
    cases h
  simp only [hentropy, gatherNonce, if_true, hnonce] at h
  refine ⟨entropy, nonce, p₁, p₂, rfl, hnonce, ?_⟩
  have hctx := congrArg Prod.fst (Option.some.inj h)
  simp only at hctx
  have hupdate := @hmacDrbgUpdate_toInstance _ md
    { ctx with
        mdCtx := mdHmacStarts ctx.v, v := List.replicate md.size 0x01, entropyLen := n
        pEntropy := some p₂ }
    (some (entropy.toList ++ nonce.toList ++ custom.getD []))
  generalize hmacDrbgUpdate md _ (some (entropy.toList ++ nonce.toList ++ custom.getD [])) = ctx₁
    at hupdate hctx
  have hlast : ({ ctx₁ with reseedCounter := 0 } : Context σ).toInstance =
      { ctx₁.toInstance with served := 0 } := rfl
  rw [← hctx, hlast, hupdate, hfresh.v]
  rfl

/-- A context that was seeded, with an entropy length that is small enough for the seed buffer. -/
inductive Seeded (md : Md) (sizeMod : Nat) (fEntropy : Drbg.Source σ) : Context σ → Prop
  | seed {ctx₀ ctx : Context σ} {pEntropy : σ} {custom : Option ByteString} :
      Fresh md ctx₀ → ctx₀.entropyLen ≤ maxSeedInput →
        hmacDrbgSeed md sizeMod fEntropy ctx₀ pEntropy custom = some (ctx, .ok ()) →
          Seeded md sizeMod fEntropy ctx
  | seedBuf {ctx₀ : Context σ} {data : ByteString} :
      Fresh md ctx₀ → ctx₀.entropyLen ≤ maxSeedInput →
        Seeded md sizeMod fEntropy (hmacDrbgSeedBuf md ctx₀ data)

theorem Seeded.start (h : Seeded md sizeMod fEntropy ctx) :
    ctx.entropyLen ≤ maxSeedInput ∧ ctx.reseedCounter = 0 := by
  cases h with
  | seed hfresh hentropy hseed =>
    obtain ⟨_, _, _, _, _, _, hinst⟩ := hmacDrbgSeed_toInstance hfresh hseed
    have hlen := congrArg Drbg.Instance.entropyLen hinst
    have hcounter := congrArg Drbg.Instance.served hinst
    exact ⟨Nat.le_trans (Nat.le_of_eq hlen) (seedEntropyLen_le hentropy), hcounter⟩
  | seedBuf hfresh hentropy =>
    rename_i ctx₀ data
    have hinst := hmacDrbgSeedBuf_toInstance hfresh data
    have hlen := congrArg Drbg.Instance.entropyLen hinst
    have hcounter := congrArg Drbg.Instance.served hinst
    exact ⟨Nat.le_trans (Nat.le_of_eq hlen) hentropy, hcounter.trans hfresh.reseedCounter⟩

/-! ## Runs -/

def toTrace (tr : List (Call × Result)) : List (Drbg.Call × Drbg.Out) :=
  tr.map (Prod.map Call.toCall Result.toOut)

theorem run_toInstance (hsize : 2 ^ 16 ≤ sizeMod) (hentropy : ctx.entropyLen ≤ maxSeedInput)
    {tr : List (Call × Result)} {ctx' : Context σ}
    (hrun : Machine.Run (drbgMachine md sizeMod fEntropy) ctx tr ctx')
    (hfits : ∀ e ∈ tr, e.1.Fits) :
    ctx'.entropyLen ≤ maxSeedInput ∧
      Machine.Run (Drbg.step (Drbg.hmacMechanism md.hmac md.size) limits fEntropy) ctx.toInstance
        (toTrace tr) ctx'.toInstance := by
  apply Machine.Run.simulate (I := fun ctx => ctx.entropyLen ≤ maxSeedInput) hentropy ?_ hrun hfits
  intro s call s' r hs hcall hstep
  have hsim := @drbgMachine_toInstance _ md _ fEntropy _ hsize hs call
  rw [hstep] at hsim
  refine ⟨?_, hsim.symm⟩
  rcases Drbg.step_entropyLen hsim.symm with hset | hsame
  · cases call with
    | setEntropyLen len =>
      have hlen : len = s'.entropyLen := Drbg.Call.setEntropyLen.inj hset
      rw [← hlen]
      exact hcall
    | _ => cases hset
  · exact Nat.le_trans (Nat.le_of_eq hsame) hs

theorem call_cases (hsize : 2 ^ 16 ≤ sizeMod) (hentropy : ctx.entropyLen ≤ maxSeedInput)
    (hzero : ctx.reseedCounter = 0) {tr : List (Call × Result)} {ctx' ctx'' : Context σ}
    (hrun : Machine.Run (drbgMachine md sizeMod fEntropy) ctx tr ctx')
    (hfits : ∀ e ∈ tr, e.1.Fits) {call : Call} {r : Result}
    (hstep : drbgMachine md sizeMod fEntropy ctx' call = some (ctx'', r)) :
    (∀ e, r.ret = .error e → r.output = [] ∧ ctx''.working = ctx'.working ∧
        ctx''.reseedCounter = ctx'.reseedCounter) ∧
      ∀ outLen additional, call = .randomWithAdd outLen additional → r.ret = .ok () →
        r.output.length = outLen ∧
          (ctx.pEntropy ≠ none →
            (Drbg.requests (toTrace (tr ++ [(call, r)])) : Int) ≤ max 1 ctx'.reseedInterval) := by
  obtain ⟨hentropy', hspec⟩ := run_toInstance hsize hentropy hrun hfits
  have hsim := @drbgMachine_toInstance _ md _ fEntropy _ hsize hentropy' call
  rw [hstep] at hsim
  have hout := drbgMachine_output hstep
  constructor
  · intro e he
    refine ⟨hout.1 e he, ?_⟩
    have hret : r.toOut.ret = .error e.toFailure := by
      simp only [Result.toOut, he]
    exact Drbg.step_error hsim.symm hret
  · intro outLen additional hcall hok
    refine ⟨hout.2 outLen additional hcall hok, ?_⟩
    intro hsource
    have hserved : Drbg.Served (call.toCall, r.toOut) = true := by
      subst hcall
      simp only [Drbg.Served, Call.toCall, Result.toOut, hok]
    have hbound := @Drbg.requests_le_interval _ _ _ _ _ _ _ _ _ ctx.toInstance _ hzero
      (Option.isSome_iff_ne_none.mpr hsource) hspec hsim.symm hserved
    unfold toTrace at hbound ⊢
    rw [List.map_append]
    exact hbound

/-! ## The result -/

/-- HMAC_DRBG refines SP 800-90A: seeding is HMAC_DRBG_Instantiate and every run is a run of the
standard's instance; a call that fails changes nothing; the requests since a reseed are within the
interval, but for the one that reseeded. -/
theorem hmac_drbg_refines (md : Md) (sizeMod : Nat) (hsize : 2 ^ 16 ≤ sizeMod) {σ : Type}
    (fEntropy : Drbg.Source σ) :
    (∀ (ctx₀ ctx : Context σ) pEntropy custom, Fresh md ctx₀ →
      hmacDrbgSeed md sizeMod fEntropy ctx₀ pEntropy custom = some (ctx, .ok ()) →
        ∃ entropy nonce p₁ p₂,
          fEntropy pEntropy (seedEntropyLen md ctx₀) = (some entropy, p₁) ∧
            fEntropy p₁ (seedEntropyLen md ctx₀ / 2) = (some nonce, p₂) ∧
            ctx.toInstance =
              { working := Drbg.hmacInstantiate md.hmac md.size
                  (entropy.toList ++ nonce.toList ++ custom.getD [])
                served := 0
                interval := ctx₀.reseedInterval
                predictionResistance := ctx₀.predictionResistance = prOn
                entropyLen := seedEntropyLen md ctx₀
                source := some p₂ }) ∧
    (∀ (ctx₀ : Context σ) data, Fresh md ctx₀ →
      (hmacDrbgSeedBuf md ctx₀ data).toInstance =
        withWorking ctx₀.toInstance (Drbg.hmacInstantiate md.hmac md.size data)) ∧
    ∀ ctx tr ctx', Seeded md sizeMod fEntropy ctx →
      Machine.Run (drbgMachine md sizeMod fEntropy) ctx tr ctx' → (∀ e ∈ tr, e.1.Fits) →
        Machine.Run (Drbg.step (Drbg.hmacMechanism md.hmac md.size) limits fEntropy)
            ctx.toInstance (toTrace tr) ctx'.toInstance ∧
          ∀ call ctx'' r, drbgMachine md sizeMod fEntropy ctx' call = some (ctx'', r) →
            (∀ e, r.ret = .error e → r.output = [] ∧ ctx''.working = ctx'.working ∧
                ctx''.reseedCounter = ctx'.reseedCounter) ∧
              ∀ outLen additional, call = .randomWithAdd outLen additional → r.ret = .ok () →
                r.output.length = outLen ∧
                  (ctx.pEntropy ≠ none → (Drbg.requests (toTrace (tr ++ [(call, r)])) : Int) ≤
                    max 1 ctx'.reseedInterval) := by
  refine ⟨?_, ?_, ?_⟩
  · intro ctx₀ ctx pEntropy custom hfresh hseed
    exact hmacDrbgSeed_toInstance hfresh hseed
  · intro ctx₀ data hfresh
    exact hmacDrbgSeedBuf_toInstance hfresh data
  intro ctx tr ctx' hseeded hrun hfits
  obtain ⟨hentropy, hzero⟩ := hseeded.start
  refine ⟨(run_toInstance hsize hentropy hrun hfits).2, ?_⟩
  intro call ctx'' r hstep
  exact call_cases hsize hentropy hzero hrun hfits hstep

def zeroMd : Md where
  size := 1
  hmac := fun _ _ => [0]
  leftover := fun _ _ => []
  size_pos := by decide
  length_hmac := fun _ _ => rfl

def zeroSource : Drbg.Source Unit := fun s _ => (some Blocks.Block.zero, s)

def everyTime : Context Unit := { hmacDrbgInit zeroMd with reseedInterval := 0 }

theorem seed_everyTime :
    ∃ ctx, hmacDrbgSeed zeroMd (2 ^ 64) zeroSource everyTime () none = some (ctx, .ok ()) ∧
      ctx.reseedInterval = 0 ∧ ctx.pEntropy = some () ∧ ctx.reseedCounter = 0 ∧
      ctx.entropyLen = 16 :=
  ⟨_, rfl, rfl, rfl, rfl, rfl⟩

theorem random_due {ctx : Context Unit} (hsource : ctx.pEntropy = some ())
    (hlen : ctx.entropyLen = 16) (hdue : ctx.reseedCounter ≥ ctx.reseedInterval) :
    ∃ ctx' r, drbgMachine zeroMd (2 ^ 64) zeroSource ctx (.randomWithAdd 0 none) =
        some (ctx', r) ∧
      r.ret = .ok () ∧ r.reseeded = true ∧ ctx'.pEntropy = some () ∧ ctx'.entropyLen = 16 ∧
      ctx'.reseedInterval = ctx.reseedInterval ∧ ctx'.reseedCounter = 1 := by
  have hsim := @drbgMachine_toInstance _ zeroMd (2 ^ 64) zeroSource ctx (by decide)
    (by rw [hlen]; decide) (.randomWithAdd 0 none)
  have hfits : ¬ (limits.reseedInput < ([] : ByteString).length ∨
      limits.seed < ctx.toInstance.entropyLen + ([] : ByteString).length) := by
    show ¬ (limits.reseedInput < 0 ∨ limits.seed < ctx.entropyLen + 0)
    rw [hlen]
    decide
  have hreseed := @Drbg.reseed_ok _ _ (Drbg.hmacMechanism zeroMd.hmac zeroMd.size) limits
    zeroSource _ _ hfits _ _ hsource _ rfl
  have hstep := Drbg.generate_due (n := 0) (by decide) (by decide)
    (Option.isSome_iff_exists.mpr ⟨(), hsource⟩) (.inr hdue) hreseed
  rw [show Drbg.step (Drbg.hmacMechanism zeroMd.hmac zeroMd.size) limits zeroSource ctx.toInstance
    (Call.randomWithAdd 0 none).toCall = _ from hstep] at hsim
  rcases hcall : drbgMachine zeroMd (2 ^ 64) zeroSource ctx (.randomWithAdd 0 none) with
    _ | ⟨ctx', r⟩
  · rw [hcall] at hsim
    cases hsim
  · rw [hcall] at hsim
    obtain ⟨hinst, hout⟩ := Prod.mk.inj (Option.some.inj hsim)
    refine ⟨ctx', r, rfl, ?_, congrArg Drbg.Out.reseeded hout, congrArg Drbg.Instance.source hinst,
      (congrArg Drbg.Instance.entropyLen hinst).trans hlen, congrArg Drbg.Instance.interval hinst,
      congrArg Drbg.Instance.served hinst⟩
    have hret := congrArg Drbg.Out.ret hout
    simp only [Result.toOut] at hret
    rcases hr : r.ret with e | _
    · rw [hr] at hret
      cases hret
    · rfl

theorem hmac_drbg_refines_witness :
    ∃ ctx tr ctx', Seeded zeroMd (2 ^ 64) zeroSource ctx ∧ tr.length = 1 ∧
      Machine.Run (drbgMachine zeroMd (2 ^ 64) zeroSource) ctx tr ctx' ∧
      Machine.Run (Drbg.step (Drbg.hmacMechanism zeroMd.hmac zeroMd.size) limits zeroSource)
        ctx.toInstance (toTrace tr) ctx'.toInstance := by
  obtain ⟨ctx, hseed, hinterval, hsource, hcounter, hlen⟩ := seed_everyTime
  obtain ⟨ctx', r, hcall, _⟩ := random_due hsource hlen (by rw [hcounter, hinterval])
  have hseeded : Seeded zeroMd (2 ^ 64) zeroSource ctx := .seed ⟨rfl, rfl, rfl⟩ (by decide) hseed
  have hnil : Machine.Run (drbgMachine zeroMd (2 ^ 64) zeroSource) ctx [] ctx := .nil
  have hrun := hnil.snoc hcall
  have hfits : ∀ e ∈ [] ++ [(Call.randomWithAdd 0 none, r)], e.1.Fits := by
    intro e he
    rw [List.nil_append, List.mem_singleton] at he
    rw [he]
    trivial
  have hspec := (hmac_drbg_refines zeroMd (2 ^ 64) (by decide) zeroSource).2.2 ctx _ ctx' hseeded
    hrun hfits
  exact ⟨ctx, _, ctx', hseeded, rfl, hrun, hspec.1⟩

/-- **Counterexample.** With the reseed interval 0 every request reseeds, and one request is
served between two reseeds. -/
theorem hmac_drbg_interval_zero :
    ∃ ctx ctx₁ r₁ ctx₂ r₂,
      Seeded zeroMd (2 ^ 64) zeroSource ctx ∧ ctx.pEntropy ≠ none ∧
      drbgMachine zeroMd (2 ^ 64) zeroSource ctx (.randomWithAdd 0 none) = some (ctx₁, r₁) ∧
      drbgMachine zeroMd (2 ^ 64) zeroSource ctx₁ (.randomWithAdd 0 none) = some (ctx₂, r₂) ∧
      r₁.reseeded = true ∧ r₂.reseeded = true ∧ ctx.reseedInterval = 0 ∧
      ctx₁.reseedInterval = 0 ∧
      Drbg.requests (toTrace [(.randomWithAdd 0 none, r₁)]) = 1 := by
  obtain ⟨ctx, hseed, hinterval, hsource, hcounter, hlen⟩ := seed_everyTime
  obtain ⟨ctx₁, r₁, hcall₁, hret₁, hre₁, hsource₁, hlen₁, hinterval₁, hcounter₁⟩ :=
    random_due hsource hlen (by rw [hcounter, hinterval])
  obtain ⟨ctx₂, r₂, hcall₂, _, hre₂, _⟩ :=
    random_due hsource₁ hlen₁ (by rw [hcounter₁, hinterval₁, hinterval]; decide)
  refine ⟨ctx, ctx₁, r₁, ctx₂, r₂, .seed ⟨rfl, rfl, rfl⟩ (by decide) hseed, ?_, hcall₁, hcall₂,
    hre₁, hre₂, hinterval, hinterval₁.trans hinterval, ?_⟩
  · rw [hsource]
    simp
  · have hsnoc := Drbg.requests_snoc [] ((Call.randomWithAdd 0 none).toCall, r₁.toOut)
    have hserved : Drbg.Served ((Call.randomWithAdd 0 none).toCall, r₁.toOut) = true := by
      simp only [Drbg.Served, Call.toCall, Result.toOut, hret₁]
    have hre : r₁.toOut.reseeded = true := hre₁
    simp only [hre, hserved, if_true] at hsnoc
    exact hsnoc

end HmacDrbg

end TfPsaCrypto
