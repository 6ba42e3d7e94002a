import TfPsaCrypto.KeyDerivation.OutputKey
import TfPsaCrypto.KeyDerivation.Reading

/-!
# What each key derivation call does

One lemma for each entry point: what it leaves of the operation, in each of its
outcomes. The protocol proofs use these lemmas only.
-/

namespace TfPsaCrypto

open Bytes (ByteString)
open BlockStream (segment)

variable {P : KdfPlatform} {k : Kdf} {inputs : KdfInputs} {pos : Nat}
  {op : PsaKeyDerivationOperation}

/-- The key derivation algorithm within an algorithm, which may be a key agreement
combined with it. -/
def kdfAlgOf (alg : PsaAlgorithm) : PsaAlgorithm :=
  if psaAlgIsKeyAgreement alg then psaAlgKeyAgreementGetKdf alg else alg

theorem psaKeyDerivationGetKdfAlg_eq : psaKeyDerivationGetKdfAlg op = kdfAlgOf op.alg := rfl

theorem Kdf.ne_zero {alg : PsaAlgorithm} (hk : k.Is alg = true) : alg ≠ 0 := by
  rintro rfl
  cases k <;> exact absurd hk (by decide)

theorem alg_ne_zero (hk : k.Is (kdfAlgOf op.alg) = true) : op.alg ≠ 0 := by
  intro hzero
  have hnone : kdfAlgOf 0 = 0 := by decide
  exact Kdf.ne_zero (hzero ▸ hk) hnone

/-! ## Setup -/

theorem psaHashLength_getHash (alg : PsaAlgorithm) :
    psaHashLength (psaAlgGetHash alg) = psaHashLength (psaAlgKdfGetHash alg) := by
  unfold psaAlgGetHash psaAlgKdfGetHash
  split
  · next hzero =>
    have hmask : alg &&& psaAlgHashMask = 0 := hzero
    rw [hmask]
    decide
  · rfl

theorem psaKeyDerivationSetMaximumCapacity_success
    {hashTrySupport : PsaAlgorithm → PsaStatus} {op : PsaKeyDerivationOperation}
    {kdfAlg : PsaAlgorithm} {k : Kdf} (hk : k.Is kdfAlg = true)
    (h : (psaKeyDerivationSetMaximumCapacity P hashTrySupport op kdfAlg).1 = .success) :
    0 < k.blockSize kdfAlg ∧ ∃ capacity, 0 < capacity ∧
      (k = .tls12Prf ∨ capacity ≤ k.blockLimit * k.blockSize kdfAlg) ∧
      (psaKeyDerivationSetMaximumCapacity P hashTrySupport op kdfAlg).2
        = { op with capacity := capacity } := by
  have htest : ∀ k' : Kdf, k'.Is kdfAlg = decide (k = k') := fun k' => by
    rw [Kdf.is_iff hk, decide_eq_decide]
    exact eq_comm
  have hecjpake : kdfAlg = psaAlgTls12EcjpakeToPms ↔ k = .tls12EcjpakeToPms :=
    decide_eq_decide.mp (htest .tls12EcjpakeToPms)
  have hcmac : kdfAlg = psaAlgPbkdf2AesCmacPrf128 ↔ k = .pbkdf2AesCmacPrf128 :=
    decide_eq_decide.mp (htest .pbkdf2AesCmacPrf128)
  have hhkdf : psaAlgIsHkdf kdfAlg = decide (k = .hkdf) := htest .hkdf
  have hextract : psaAlgIsHkdfExtract kdfAlg = decide (k = .hkdfExtract) := htest .hkdfExtract
  have hexpand : psaAlgIsHkdfExpand kdfAlg = decide (k = .hkdfExpand) := htest .hkdfExpand
  have hprf : psaAlgIsTls12Prf kdfAlg = decide (k = .tls12Prf) := htest .tls12Prf
  have hpsk : psaAlgIsTls12PskToMs kdfAlg = decide (k = .tls12PskToMs) := htest .tls12PskToMs
  have hpbkdf2 : psaAlgIsPbkdf2Hmac kdfAlg = decide (k = .pbkdf2Hmac) := htest .pbkdf2Hmac
  have hmax := P.sizeMax_eq
  unfold psaKeyDerivationSetMaximumCapacity at h ⊢
  simp only [hecjpake, hcmac, hhkdf, hextract, hexpand, hprf, hpsk, hpbkdf2,
    psaHashLength_getHash, psaMacLength_aes_cmac, decide_eq_true_eq] at h ⊢
  by_cases he : k = .tls12EcjpakeToPms
  · subst he
    have hsha : psaHashLength psaAlgSha256 = 32 := by decide
    rw [if_pos rfl, hsha]
    refine ⟨Nat.succ_pos 31, 32, Nat.succ_pos 31, .inr ?_, rfl⟩
    show 32 ≤ 1 * 32
    omega
  rw [if_neg he] at h ⊢
  by_cases hc : k = .pbkdf2AesCmacPrf128
  · subst hc
    rw [if_pos rfl]
    refine ⟨Nat.succ_pos 15, ?_⟩
    by_cases hbig : P.sizeMax > 2 ^ 32 - 1
    · rw [if_pos hbig]
      exact ⟨(2 ^ 32 - 1) * 16, by omega, .inr (Nat.le_refl _), rfl⟩
    · rw [if_neg hbig]
      refine ⟨P.sizeMax, by omega, .inr ?_, rfl⟩
      show P.sizeMax ≤ (2 ^ 32 - 1) * 16
      omega
  rw [if_neg hc] at h ⊢
  have hsize : k.blockSize kdfAlg = psaHashLength (psaAlgKdfGetHash kdfAlg) := by
    cases k <;> first | rfl | contradiction
  rw [hsize]
  generalize psaHashLength (psaAlgKdfGetHash kdfAlg) = size at h ⊢
  generalize psaAlgGetHash kdfAlg = hashAlg at h ⊢
  by_cases hzero : size = 0
  · rw [if_pos hzero] at h
    cases h
  rw [if_neg hzero] at h ⊢
  by_cases htry : hashTrySupport hashAlg ≠ .success
  · rw [if_pos htry] at h
    exact absurd h htry
  rw [if_neg htry] at h ⊢
  refine ⟨by omega, ?_⟩
  cases k with
  | tls12EcjpakeToPms => exact absurd rfl he
  | pbkdf2AesCmacPrf128 => exact absurd rfl hc
  | hkdf => exact ⟨255 * size, by omega, .inr (Nat.le_refl _), rfl⟩
  | hkdfExpand => exact ⟨255 * size, by omega, .inr (Nat.le_refl _), rfl⟩
  | hkdfExtract => exact ⟨size, by omega, .inr (Nat.one_mul _).ge, rfl⟩
  | tls12Prf =>
    by_cases hhash : hashAlg = psaAlgSha256 ∨ hashAlg = psaAlgSha384
    · exact ⟨P.sizeMax, by omega, .inl rfl, by simp [hhash]⟩
    · simp [hhash] at h
  | tls12PskToMs =>
    by_cases hhash : hashAlg = psaAlgSha256 ∨ hashAlg = psaAlgSha384
    · refine ⟨48, by omega, .inr ?_, by simp [hhash]⟩
      show 48 ≤ 255 * size
      omega
    · simp [hhash] at h
  | pbkdf2Hmac =>
    by_cases hbig : P.sizeMax > 2 ^ 32 - 1
    · refine ⟨(2 ^ 32 - 1) * size, by omega, .inr (Nat.le_refl _), ?_⟩
      show (if P.sizeMax > 2 ^ 32 - 1 then _ else _ : PsaStatus × _).2 = _
      rw [if_pos hbig]
    refine ⟨P.sizeMax, by omega, .inr ?_, ?_⟩
    swap
    · show (if P.sizeMax > 2 ^ 32 - 1 then _ else _ : PsaStatus × _).2 = _
      rw [if_neg hbig]
    show P.sizeMax ≤ (2 ^ 32 - 1) * size
    omega

section Setup

variable {hashTrySupport : PsaAlgorithm → PsaStatus} {alg kdfAlg : PsaAlgorithm}

theorem psaKeyDerivationSetMaximumCapacity_frame :
    (psaKeyDerivationSetMaximumCapacity P hashTrySupport op kdfAlg).2.alg = op.alg ∧
      (psaKeyDerivationSetMaximumCapacity P hashTrySupport op kdfAlg).2.canOutputKey
        = op.canOutputKey := by
  have hite : ∀ {c : Prop} [Decidable c] {a b : PsaStatus × PsaKeyDerivationOperation},
      a.2.alg = op.alg ∧ a.2.canOutputKey = op.canOutputKey →
      b.2.alg = op.alg ∧ b.2.canOutputKey = op.canOutputKey →
      (if c then a else b).2.alg = op.alg ∧
        (if c then a else b).2.canOutputKey = op.canOutputKey := by
    intro c _ a b ha hb
    split
    · exact ha
    · exact hb
  unfold psaKeyDerivationSetMaximumCapacity
  repeat first | exact ⟨rfl, rfl⟩ | refine hite ?_ ?_

theorem psaKeyDerivationSetupKdf_frame :
    (psaKeyDerivationSetupKdf P hashTrySupport op kdfAlg).2.alg = op.alg ∧
      (psaKeyDerivationSetupKdf P hashTrySupport op kdfAlg).2.canOutputKey = op.canOutputKey := by
  unfold psaKeyDerivationSetupKdf
  split
  · exact psaKeyDerivationSetMaximumCapacity_frame
  · exact ⟨rfl, rfl⟩

theorem psaKeyDerivationSetupKdf_success
    (h : (psaKeyDerivationSetupKdf P hashTrySupport op kdfAlg).1 = .success) :
    ∃ (k : Kdf) (capacity : Nat), k.Is kdfAlg = true ∧ 0 < k.blockSize kdfAlg ∧
      0 < capacity ∧ (k = .tls12Prf ∨ capacity ≤ k.blockLimit * k.blockSize kdfAlg) ∧
      (psaKeyDerivationSetupKdf P hashTrySupport op kdfAlg).2
        = { op with capacity := capacity, ctx := psaKeyDerivationContextZero } := by
  unfold psaKeyDerivationSetupKdf at h ⊢
  split at h
  · next hsupported =>
    rw [if_pos hsupported]
    obtain ⟨k, hk⟩ := isKdfAlgSupported_iff.mp hsupported
    obtain ⟨hsize, capacity, hpos, hlimit, heq⟩ := psaKeyDerivationSetMaximumCapacity_success hk h
    exact ⟨k, capacity, hk, hsize, hpos, hlimit, heq⟩
  · cases h

/-- What a setup leaves: it starts an idle operation, or it fails and keeps the
algorithm that there was. -/
inductive SetupOutcome (P : KdfPlatform) (op : PsaKeyDerivationOperation)
    (alg : PsaAlgorithm) (r : PsaStatus × PsaKeyDerivationOperation) : Prop
  | started (k : Kdf) (capacity : Nat) (status : r.1 = .success) (idle : op.alg = 0)
      (kind : k.Is (kdfAlgOf alg) = true) (size : 0 < k.blockSize (kdfAlgOf alg))
      (capacity_pos : 0 < capacity)
      (limit : k = .tls12Prf ∨ capacity ≤ k.blockLimit * k.blockSize (kdfAlgOf alg))
      (operation : r.2 = { op with alg := alg, capacity := capacity,
                                   ctx := psaKeyDerivationContextZero })
  | failed (status : r.1 ≠ .success) (alg_eq : r.2.alg = op.alg)
      (canOutputKey_eq : r.2.canOutputKey = op.canOutputKey)
      (in_use : op.alg ≠ 0 → r.2 = op)

variable (P hashTrySupport op alg) in
theorem psaKeyDerivationSetup_outcome :
    SetupOutcome P op alg (psaKeyDerivationSetup P hashTrySupport op alg) := by
  have hdone : ∀ kdfAlg, op.alg = 0 → kdfAlgOf alg = kdfAlg →
      SetupOutcome P op alg
        (if (psaKeyDerivationSetupKdf P hashTrySupport op kdfAlg).1 = .success then
          ((psaKeyDerivationSetupKdf P hashTrySupport op kdfAlg).1,
            { (psaKeyDerivationSetupKdf P hashTrySupport op kdfAlg).2 with alg := alg })
        else psaKeyDerivationSetupKdf P hashTrySupport op kdfAlg) := by
    rintro _ hidle rfl
    split
    · next hok =>
      obtain ⟨k, capacity, hk, hsize, hpos, hlimit, heq⟩ := psaKeyDerivationSetupKdf_success hok
      exact .started k capacity hok hidle hk hsize hpos hlimit (by rw [heq])
    · next hfail =>
      exact .failed hfail psaKeyDerivationSetupKdf_frame.1
        psaKeyDerivationSetupKdf_frame.2 fun hne => absurd hidle hne
  unfold psaKeyDerivationSetup
  dsimp only
  split
  · exact .failed (by simp) rfl rfl fun _ => rfl
  next hidle =>
  rw [not_not] at hidle
  split
  · exact .failed (by simp) rfl rfl fun _ => rfl
  split
  · next hka =>
    split
    · next hsupport => exact .failed hsupport rfl rfl fun _ => rfl
    split
    · exact hdone _ hidle (by rw [kdfAlgOf, if_pos hka])
    · exact .failed (by simp) rfl rfl fun _ => rfl
  next hka =>
  split
  · exact hdone _ hidle (by rw [kdfAlgOf, if_neg hka])
  · exact .failed (by simp) rfl rfl fun _ => rfl

end Setup

theorem psaKeyDerivationSetCapacity_operation (op : PsaKeyDerivationOperation)
    (capacity : Nat) :
    ∃ c ≤ op.capacity, (psaKeyDerivationSetCapacity op capacity).2 = { op with capacity := c } := by
  unfold psaKeyDerivationSetCapacity
  split
  · exact ⟨op.capacity, Nat.le_refl _, rfl⟩
  split
  · exact ⟨op.capacity, Nat.le_refl _, rfl⟩
  · next hle => exact ⟨capacity, Nat.le_of_not_lt hle, rfl⟩

/-! ## Inputs -/

variable {prf : PsaTls12PrfKeyDerivation} {ctx : PsaKeyDerivationContext} {r : InputResult}

section Input

def Proper {α : Type} (x : Except PsaStatus α) : Prop := x ≠ .error .success

variable {α β : Type}

theorem proper_ok {a : α} : Proper (.ok a : Except PsaStatus α) := by
  simp [Proper]

theorem proper_error {e : PsaStatus} (h : e ≠ .success) :
    Proper (.error e : Except PsaStatus α) := by
  simpa [Proper] using h

theorem Proper.bind {x : Except PsaStatus α} {f : α → Except PsaStatus β}
    (hx : Proper x) (hf : ∀ a, Proper (f a)) : Proper (x >>= f) := by
  cases x with
  | error e => exact proper_error fun he => hx (by rw [he])
  | ok a => exact hf a

theorem Proper.map {x : Except PsaStatus α} (hx : Proper x) (f : α → β) :
    Proper (x.map f) := by
  cases x with
  | error e => exact proper_error fun he => hx (by rw [he])
  | ok a => exact proper_ok

theorem proper_macCompute {fault : PsaStatus} {mac : ByteString} :
    Proper (macCompute fault mac) := by
  unfold macCompute
  split
  · exact proper_ok
  · next hne => exact proper_error hne

theorem proper_copyInput {calloc : Bool} {data : ByteString} :
    Proper (copyInput calloc data) := by
  unfold copyInput
  repeat' split
  all_goals first | exact proper_ok | exact proper_error (by simp)

variable {env : InputEnv} {step : PsaKeyDerivationStep} {data : ByteString}

theorem proper_hkdfInput {hkdf : PsaHkdfKeyDerivation} {alg : PsaAlgorithm} :
    Proper (psaHkdfInput P env hkdf alg step data) := by
  cases step with
  | salt =>
    show Proper (hkdfInputSalt env hkdf alg data)
    unfold hkdfInputSalt
    split
    · exact proper_error (by simp)
    split
    · exact proper_error (by simp)
    split
    · next hne => exact proper_error hne
    · exact proper_ok
  | secret =>
    refine Proper.bind ?_ fun prk => ?_
    · unfold hkdfInputPrk
      dsimp only
      repeat' split
      all_goals
        first
          | exact proper_macCompute
          | exact proper_ok
          | exact proper_error ‹_›
          | exact proper_error (by simp)
    · dsimp only
      split <;> exact proper_ok
  | info =>
    show Proper (hkdfInputInfo env hkdf alg data)
    unfold hkdfInputInfo
    repeat' split
    all_goals
      first
        | exact proper_error (by simp)
        | exact proper_copyInput.bind fun _ => proper_ok
  | _ => exact proper_error (by simp)

theorem proper_tls12PrfSetKey : Proper (psaTls12PrfSetKey env prf data) := by
  unfold psaTls12PrfSetKey
  split
  · exact proper_error (by simp)
  · exact proper_copyInput.bind fun _ => proper_ok

theorem proper_tls12PrfInput : Proper (psaTls12PrfInput env prf step data) := by
  cases step with
  | seed | label =>
    unfold psaTls12PrfInput
    simp only [psaTls12PrfSetSeed, psaTls12PrfSetLabel]
    split
    · exact proper_error (by simp)
    · exact proper_copyInput.bind fun _ => proper_ok
  | secret => exact proper_tls12PrfSetKey
  | _ => exact proper_error (by simp)

theorem proper_tls12PrfPskToMsInput : Proper (psaTls12PrfPskToMsInput env prf step data) := by
  unfold psaTls12PrfPskToMsInput
  split
  · unfold psaTls12PrfPskToMsSetKey
    split
    · exact proper_error (by simp)
    split
    · exact proper_error (by simp)
    · exact proper_tls12PrfSetKey
  · unfold psaTls12PrfPskToMsSetOtherKey
    split
    · exact proper_error (by simp)
    · exact proper_copyInput.bind fun _ => proper_ok
  · exact proper_tls12PrfInput

theorem proper_tls12EcjpakeToPmsInput : Proper (psaTls12EcjpakeToPmsInput step data) := by
  unfold psaTls12EcjpakeToPmsInput
  repeat' split
  all_goals first | exact proper_ok | exact proper_error (by simp)

theorem proper_pbkdf2SetInputCost {pbkdf2 : PsaPbkdf2KeyDerivation} {value : Nat} :
    Proper (psaPbkdf2SetInputCost pbkdf2 step value) := by
  unfold psaPbkdf2SetInputCost
  repeat' split
  all_goals first | exact proper_ok | exact proper_error (by simp)

theorem proper_pbkdf2Input {pbkdf2 : PsaPbkdf2KeyDerivation} {alg : PsaAlgorithm} :
    Proper (psaPbkdf2Input P env pbkdf2 alg step data) := by
  unfold psaPbkdf2Input
  split
  · unfold psaPbkdf2SetSalt
    split
    · exact proper_copyInput.bind fun _ => proper_ok
    · exact proper_error (by simp)
  · unfold psaPbkdf2SetPassword
    split
    · exact proper_error (by simp)
    have hhmac : ∀ hashAlg, Proper (psaPbkdf2HmacSetPassword P env hashAlg data) := by
      intro hashAlg
      unfold psaPbkdf2HmacSetPassword
      split
      · split
        · exact proper_ok
        · next hne => exact proper_error hne
      · exact proper_ok
    have hcmac : Proper (psaPbkdf2CmacSetPassword P env data) := by
      unfold psaPbkdf2CmacSetPassword
      split
      · exact proper_macCompute
      · exact proper_ok
    split
    · exact (hhmac _).bind fun _ => proper_ok
    split
    · exact hcmac.bind fun _ => proper_ok
    · exact proper_error (by simp)
  · exact proper_error (by simp)

theorem proper_inputContext {alg : PsaAlgorithm} {x : Except PsaStatus PsaKeyDerivationContext}
    (h : psaKeyDerivationInputContext P env ctx alg step data = some x) : Proper x := by
  unfold psaKeyDerivationInputContext at h
  split at h
  · exact Option.some.inj h ▸ proper_hkdfInput.map _
  split at h
  · exact Option.some.inj h ▸ proper_tls12PrfInput.map _
  split at h
  · exact Option.some.inj h ▸ proper_tls12PrfPskToMsInput.map _
  split at h
  · exact Option.some.inj h ▸ proper_tls12EcjpakeToPmsInput.map _
  split at h
  · exact Option.some.inj h ▸ proper_pbkdf2Input.map _
  · cases h

/-- What an input call leaves: the input taken, nothing changed, or the operation
wiped. `fromKey` says whether the call unlocks the output to a key object. -/
inductive InputOutcome (P : KdfPlatform) (env : InputEnv)
    (op : PsaKeyDerivationOperation) (fromKey : Bool) (r : InputResult) : Prop
  | taken (x : PsaKeyDerivationStep × KdfInput) (ctx : PsaKeyDerivationContext)
      (supplied : r.supplied = some x)
      (status : r.status = .success ∨ r.status = env.unregister) (in_use : op.alg ≠ 0)
      (operation : r.operation = { op with
        ctx := ctx, canOutputKey := op.canOutputKey || fromKey })
      (context : ∀ k inputs pos, k.Is (kdfAlgOf op.alg) = true →
        KdfInv P k (kdfAlgOf op.alg) inputs pos op.ctx →
        KdfInv P k (kdfAlgOf op.alg) (inputs.supply (some x)) pos ctx)
      (secret : kdfAlgOf op.alg = psaAlgTls12EcjpakeToPms → ∃ data, x = (.secret, .bytes data))
  | refused (supplied : r.supplied = none) (status : r.status ≠ .success)
      (operation : r.operation = op)
  | wiped (supplied : r.supplied = none) (status : r.status ≠ .success)
      (operation : r.operation = psaKeyDerivationOperationInit)

def Supported (op : PsaKeyDerivationOperation) : Prop :=
  op.alg = 0 ∨ ∃ k : Kdf, k.Is (kdfAlgOf op.alg) = true

theorem InputOutcome.accepted {fromKey : Bool}
    (hin : psaKeyDerivationInputContext P env op.ctx (kdfAlgOf op.alg) step data = some (.ok ctx))
    (hsupplied : r.supplied = some (step, .bytes data))
    (hstatus : r.status = .success ∨ r.status = env.unregister) (hne : op.alg ≠ 0)
    (hop : r.operation = { op with ctx := ctx, canOutputKey := op.canOutputKey || fromKey }) :
    InputOutcome P env op fromKey r := by
  refine .taken _ ctx hsupplied hstatus hne hop (fun k inputs pos hk h => h.input hk hin) ?_
  intro halg
  obtain ⟨hhkdf, hprf, hpsk, hecjpake, _⟩ :=
    Kdf.dispatch (k := .tls12EcjpakeToPms) (decide_eq_true halg)
  unfold psaKeyDerivationInputContext at hin
  simp only [hhkdf, hprf, hpsk, hecjpake] at hin
  obtain ⟨ecjpake, hread, _⟩ := except_map_eq_ok (Option.some.inj hin)
  unfold psaTls12EcjpakeToPmsInput at hread
  split at hread
  · cases hread
  · next hstep =>
    rw [not_or, not_not, not_not] at hstep
    exact ⟨data, by rw [hstep.2]⟩

variable (P env step data) in
theorem psaKeyDerivationInputInternal_eq (hop : Supported op) (keyType : PsaKeyType) :
    (∃ ctx, op.alg ≠ 0 ∧
        psaKeyDerivationInputContext P env op.ctx (kdfAlgOf op.alg) step data = some (.ok ctx) ∧
        psaKeyDerivationInputInternal P env op step keyType data
          = ⟨.success, { op with ctx := ctx }, some (step, .bytes data)⟩) ∨
      ∃ e, e ≠ .success ∧ psaKeyDerivationInputInternal P env op step keyType data
        = ⟨e, psaKeyDerivationOperationInit, none⟩ := by
  unfold psaKeyDerivationInputInternal
  rw [psaKeyDerivationGetKdfAlg_eq]
  by_cases hzero : kdfAlgOf op.alg = 0
  · rw [if_pos hzero]
    exact .inr ⟨_, by simp, rfl⟩
  rw [if_neg hzero]
  by_cases htype : psaKeyDerivationCheckInputType step keyType ≠ .success
  · rw [if_pos htype]
    exact .inr ⟨_, htype, rfl⟩
  rw [if_neg htype]
  cases hin : psaKeyDerivationInputContext P env op.ctx (kdfAlgOf op.alg) step data with
  | none =>
    -- every supported algorithm has an input function
    rcases hop with hidle | ⟨k, hk⟩
    · exact absurd (by rw [hidle]; decide) hzero
    · obtain ⟨hhkdf, hprf, hpsk, hecjpake, hpbkdf2⟩ := Kdf.dispatch hk
      unfold psaKeyDerivationInputContext at hin
      simp only [hhkdf, hprf, hpsk, hecjpake, hpbkdf2] at hin
      cases k <;> cases hin
  | some x =>
    cases x with
    | error e =>
      exact .inr ⟨e, fun he => proper_inputContext hin (by rw [he]), rfl⟩
    | ok ctx =>
      exact .inl ⟨ctx, fun hidle => hzero (by rw [hidle]; decide), rfl, rfl⟩

theorem psaKeyDerivationInputBytes_accepted (halloc : env.localAlloc = true)
    (hkdf : kdfAlgOf op.alg ≠ 0)
    (htype : psaKeyDerivationCheckInputType step psaKeyTypeNone = .success)
    (hin : psaKeyDerivationInputContext P env op.ctx (kdfAlgOf op.alg) step data = some (.ok ctx)) :
    psaKeyDerivationInputBytes P env op step data
      = ⟨.success, { op with ctx := ctx }, some (step, .bytes data)⟩ := by
  have hlocal : psaCryptoLocalAlloc env.localAlloc data.length = .success := by
    simp [psaCryptoLocalAlloc, halloc]
  rw [psaKeyDerivationInputBytes, if_neg (by simp [hlocal]), psaKeyDerivationInputInternal,
    psaKeyDerivationGetKdfAlg_eq, if_neg hkdf, if_neg (by simp [htype]), hin]

theorem psaKeyDerivationInputBytes_outcome (hop : Supported op) :
    InputOutcome P env op false (psaKeyDerivationInputBytes P env op step data) := by
  unfold psaKeyDerivationInputBytes
  split
  · exact .refused rfl (by simp) rfl
  rcases psaKeyDerivationInputInternal_eq P env step data hop psaKeyTypeNone with
    ⟨ctx, hne, hin, heq⟩ | ⟨e, he, heq⟩
  · rw [heq]
    exact .accepted hin rfl (.inl rfl) hne (by rw [Bool.or_false])
  · rw [heq]
    exact .wiped rfl he rfl

theorem psaKeyDerivationInputInteger_outcome {value : Nat} :
    InputOutcome P env op false (psaKeyDerivationInputInteger env op step value) := by
  unfold psaKeyDerivationInputInteger psaKeyDerivationInputIntegerInternal
  rw [psaKeyDerivationGetKdfAlg_eq]
  dsimp only
  split
  · exact .wiped rfl (by simp [inputExit]) rfl
  next hkdf =>
  have hne : op.alg ≠ 0 := fun hidle => hkdf (by rw [hidle]; decide)
  split
  · next hfam =>
    cases hin : psaPbkdf2SetInputCost op.ctx.pbkdf2 step value with
    | error e =>
      refine .wiped rfl (fun he => ?_) rfl
      exact proper_pbkdf2SetInputCost (hin.trans (congrArg Except.error he))
    | ok pbkdf2 =>
      refine .taken (step, .integer value) { op.ctx with pbkdf2 := pbkdf2 } rfl
        (.inl rfl) hne (by rw [Bool.or_false]) (fun k inputs pos hk h => ?_) fun halg => ?_
      · obtain ⟨_, _, _, _, hpbkdf2⟩ := Kdf.dispatch hk
        rw [hpbkdf2] at hfam
        rcases of_decide_eq_true hfam with rfl | rfl <;> exact Pbkdf2Inv.setInputCost h hin
      · rw [halg] at hfam
        exact absurd hfam (by decide)
  · exact .wiped rfl (by simp [inputExit]) rfl

def PermitsDerive (alg : PsaAlgorithm) (slot : KeyObject) : Prop :=
  slot.attr.policy.usage &&& psaKeyUsageDerive = psaKeyUsageDerive ∧
    psaKeyPolicyPermits slot.attr.policy slot.attr.type alg = .success

theorem psaGetAndLockTransparentKeySlotWithPolicy_ok {key : PsaKeyId}
    {alg : PsaAlgorithm} {slot : KeyObject} (halg : alg ≠ 0)
    (h : psaGetAndLockTransparentKeySlotWithPolicy env key psaKeyUsageDerive alg = .ok slot) :
    env.lookup key = .ok slot ∧ PermitsDerive alg slot := by
  have husage : psaKeyUsageDerive &&& ~~~psaKeyUsageExport = psaKeyUsageDerive := by decide
  unfold psaGetAndLockTransparentKeySlotWithPolicy psaGetAndLockKeySlotWithPolicy at h
  cases hlookup : env.lookup key with
  | error e =>
    rw [hlookup] at h
    cases h
  | ok found =>
    rw [hlookup] at h
    simp only [husage, ite_self] at h
    by_cases hmissing : found.attr.policy.usage &&& psaKeyUsageDerive ≠ psaKeyUsageDerive
    · rw [if_pos hmissing] at h
      cases h
    rw [if_neg hmissing] at h
    by_cases hpermits : psaKeyPolicyPermits found.attr.policy found.attr.type alg ≠ .success
    · rw [if_pos ⟨halg, hpermits⟩] at h
      cases h
    rw [if_neg (not_and_of_not_right _ hpermits)] at h
    dsimp only at h
    split at h
    · cases h
    · obtain rfl := Except.ok.inj h
      exact ⟨rfl, not_not.mp hmissing, not_not.mp hpermits⟩

theorem proper_getAndLockTransparentKeySlotWithPolicy {key : PsaKeyId}
    {usage : PsaKeyUsage} {alg : PsaAlgorithm} :
    Proper (psaGetAndLockTransparentKeySlotWithPolicy env key usage alg) := by
  have hpolicy : Proper (psaGetAndLockKeySlotWithPolicy env key usage alg) := by
    unfold psaGetAndLockKeySlotWithPolicy
    split
    · next e _ => exact proper_error e.ne_success
    dsimp only
    repeat' split
    all_goals
      first
        | exact proper_ok
        | exact proper_error (And.right ‹_›)
        | exact proper_error (by simp)
  unfold psaGetAndLockTransparentKeySlotWithPolicy
  split
  · next e heq => exact proper_error fun he => hpolicy (by rw [heq, he])
  split
  · exact proper_error (by simp)
  · exact proper_ok

theorem unregisterExit_of_error (h : r.status ≠ .success) : unregisterExit env r = r := by
  rw [unregisterExit, if_neg h]

variable (P env step) in
theorem psaKeyDerivationInputKey_outcome (hop : Supported op) (key : PsaKeyId) :
    InputOutcome P env op (step = .secret ∨ step = .password)
        (psaKeyDerivationInputKey P env op step key) ∧
      ((psaKeyDerivationInputKey P env op step key).supplied.isSome →
        ∃ slot, env.lookup key = .ok slot ∧ PermitsDerive op.alg slot) := by
  unfold psaKeyDerivationInputKey
  cases hslot : psaGetAndLockTransparentKeySlotWithPolicy env key psaKeyUsageDerive op.alg with
  | error e =>
    refine ⟨.wiped rfl (fun he => ?_) rfl, nofun⟩
    exact proper_getAndLockTransparentKeySlotWithPolicy (hslot.trans (congrArg Except.error he))
  | ok slot =>
    dsimp only
    generalize hlocked : (if step = .secret ∨ step = .password then
      { op with canOutputKey := true } else op : PsaKeyDerivationOperation) = locked
    have hfields : locked = { op with
        canOutputKey := op.canOutputKey || decide (step = .secret ∨ step = .password) } := by
      rw [← hlocked]
      split
      · next hstep => simp [hstep]
      · next hstep => simp [hstep]
    have hsupported : Supported locked := by rwa [hfields]
    rcases psaKeyDerivationInputInternal_eq P env step slot.data hsupported
      slot.attr.type with ⟨ctx, hne, hin, heq⟩ | ⟨e, he, heq⟩
    · rw [heq]
      rw [hfields] at hne hin
      refine ⟨.accepted hin rfl (.inr rfl) hne ?_, fun _ => ?_⟩
      · rw [hfields]
        rfl
      · exact ⟨slot, psaGetAndLockTransparentKeySlotWithPolicy_ok hne hslot⟩
    · rw [heq, unregisterExit_of_error he]
      exact ⟨.wiped rfl he rfl, nofun⟩

theorem psaKeyDerivationKeyAgreement_outcome (hop : Supported op)
    {privateKey : PsaKeyId} {peerKey : ByteString} :
    InputOutcome P env op (step = .secret)
      (psaKeyDerivationKeyAgreement P env op step privateKey peerKey) := by
  unfold psaKeyDerivationKeyAgreement
  split
  · exact .refused rfl (by simp) rfl
  cases hslot : psaGetAndLockTransparentKeySlotWithPolicy env privateKey psaKeyUsageDerive
      op.alg with
  | error e =>
    refine .refused rfl (fun he => ?_) rfl
    exact proper_getAndLockTransparentKeySlotWithPolicy (hslot.trans (congrArg Except.error he))
  | ok slot =>
    have hfailed : ∀ r : InputResult, r.status ≠ .success →
        InputOutcome P env op (step = .secret)
          (unregisterExit env
            (if r.status ≠ .success then inputExit env r.operation r.status
            else if step = .secret then
              { r with operation := { r.operation with canOutputKey := true } }
            else r)) := by
      intro r hne
      rw [if_pos hne, unregisterExit_of_error (r := inputExit env r.operation r.status) hne]
      exact .wiped rfl hne rfl
    dsimp only
    split
    · exact hfailed _ (by simp)
    unfold psaKeyAgreementInternal
    cases hraw : psaKeyAgreementRawInternal env (psaAlgKeyAgreementGetBase op.alg) slot peerKey with
    | error e =>
      refine hfailed _ fun he => ?_
      unfold psaKeyAgreementRawInternal at hraw
      split at hraw
      · rw [← Except.error.inj hraw] at he
        cases he
      split at hraw
      · next e' _ => exact e'.ne_success ((Except.error.inj hraw).trans he)
      · cases hraw
    | ok sharedSecret =>
      rcases psaKeyDerivationInputInternal_eq P env step sharedSecret hop
        psaKeyTypeDerive with ⟨ctx, hne, hin, heq⟩ | ⟨e, he, heq⟩
      · simp only [heq]
        rw [if_neg (by simp)]
        split
        · next hstep =>
          exact .accepted hin rfl (.inr rfl) hne (by simp [unregisterExit, hstep])
        · next hstep =>
          exact .accepted hin rfl (.inr rfl) hne (by simp [unregisterExit, hstep])
      · simp only [heq]
        exact hfailed ⟨e, _, none⟩ he

end Input

/-! ## Output -/

section Output

variable {env : OutputEnv} {n : Nat}

/-- The operation is set up for `k`, has taken `inputs` and stands at position `pos`
of its stream. Its capacity ends where the block counter does, the TLS PRF apart. -/
structure StandsAt (P : KdfPlatform) (k : Kdf) (inputs : KdfInputs) (pos : Nat)
    (op : PsaKeyDerivationOperation) : Prop where
  kind : k.Is (kdfAlgOf op.alg) = true
  size : 0 < k.blockSize (kdfAlgOf op.alg)
  context : KdfInv P k (kdfAlgOf op.alg) inputs pos op.ctx
  limit : k = .tls12Prf ∨ pos + op.capacity ≤ k.blockLimit * k.blockSize (kdfAlgOf op.alg)

theorem InputOutcome.stands {env : InputEnv} {fromKey : Bool} {x : PsaKeyDerivationStep × KdfInput}
    (hr : InputOutcome P env op fromKey r) (hx : r.supplied = some x)
    (h : StandsAt P k inputs pos op) :
    StandsAt P k (inputs.supply (some x)) pos r.operation ∧
      r.operation.alg = op.alg ∧ r.operation.capacity = op.capacity := by
  cases hr with
  | refused hnone => cases hnone.symm.trans hx
  | wiped hnone => cases hnone.symm.trans hx
  | taken y ctx hy _ _ hop hcontext _ =>
    obtain rfl := Option.some.inj (hx.symm.trans hy)
    rw [hop]
    exact ⟨⟨h.kind, h.size, hcontext k inputs pos h.kind h.context, h.limit⟩, rfl, rfl⟩

inductive OutputFailure (k : Kdf) (inputs : KdfInputs) (pos : Nat) (env : OutputEnv)
    (op : PsaKeyDerivationOperation) (n : Nat) : PsaStatus → Prop
  | memory : n ≠ 0 → env.localAlloc = false →
      OutputFailure k inputs pos env op n .errorInsufficientMemory
  | capacity : op.capacity < n → OutputFailure k inputs pos env op n .errorInsufficientData
  | incomplete : k ≠ .tls12EcjpakeToPms → ¬ inputs.Complete k →
      OutputFailure k inputs pos env op n .errorBadState
  | length : k = .tls12EcjpakeToPms → n ≠ 32 →
      OutputFailure k inputs pos env op n .errorInvalidArgument
  | fault (e : PsaStatus) : env.Fault e → OutputFailure k inputs pos env op n e
  | counter : n ≤ op.capacity → k = .tls12Prf →
      k.blockLimit * k.blockSize (kdfAlgOf op.alg) < pos + n →
      OutputFailure k inputs pos env op n .errorCorruptionDetected

theorem OutputFailure.ne_success {e : PsaStatus}
    (h : OutputFailure k inputs pos env op n e) : e ≠ .success := by
  cases h with
  | fault e h => exact h.1
  | _ => simp

def wipedOperation (alg : PsaAlgorithm) : PsaKeyDerivationOperation :=
  { psaKeyDerivationOperationInit with alg := alg }

/-- What `psa_key_derivation_output_bytes` leaves of an operation at position `pos`. -/
inductive OutputOutcome (P : KdfPlatform) (k : Kdf) (inputs : KdfInputs) (pos : Nat)
    (env : OutputEnv) (op : PsaKeyDerivationOperation) (n : Nat) (r : OutputResult) :
    Prop
  | read (ctx : PsaKeyDerivationContext) (status : r.status = .success)
      (capacity_pos : 0 < op.capacity) (le : n ≤ op.capacity)
      (operation : r.operation = { op with capacity := op.capacity - n, ctx := ctx })
      (stands : StandsAt P k inputs (pos + n) r.operation)
      (complete : k ≠ .tls12EcjpakeToPms → inputs.Complete k)
      (output : k ≠ .tls12EcjpakeToPms → r.output
        = segment (k.blockSize (kdfAlgOf op.alg)) (kdfBlock P k (kdfAlgOf op.alg) inputs) pos n)
  | exhausted (length : n = 0) (capacity : op.capacity = 0)
      (result : r = ⟨.errorInsufficientData, op, []⟩)
  | wiped (e : PsaStatus) (reason : OutputFailure k inputs pos env op n e)
      (result : r = ⟨e, wipedOperation op.alg, []⟩)

variable (env n) in
theorem psaKeyDerivationOutputBytes_outcome (h : StandsAt P k inputs pos op) :
    OutputOutcome P k inputs pos env op n (psaKeyDerivationOutputBytes P env op n) := by
  have hread : ∀ ctx, KdfInv P k (kdfAlgOf op.alg) inputs (pos + n) ctx →
      n ≤ op.capacity →
      StandsAt P k inputs (pos + n) { op with capacity := op.capacity - n, ctx := ctx } :=
    fun ctx hctx hle => ⟨h.kind, h.size, hctx, h.limit.imp id fun hlim => by
      show pos + n + (op.capacity - n) ≤ k.blockLimit * k.blockSize (kdfAlgOf op.alg)
      omega⟩
  unfold psaKeyDerivationOutputBytes
  rw [psaKeyDerivationGetKdfAlg_eq]
  dsimp only
  rw [if_neg (alg_ne_zero h.kind)]
  split
  · next hempty => exact .exhausted hempty.1 hempty.2 rfl
  next hempty =>
  split
  · next halloc =>
    unfold psaCryptoLocalAlloc at halloc
    have hn : n ≠ 0 := fun hn => halloc (if_pos hn)
    have hfalse : env.localAlloc = false := by
      by_contra htrue
      rw [Bool.not_eq_false] at htrue
      exact halloc (by simp [htrue])
    exact .wiped _ (.memory hn hfalse) rfl
  split
  · next hgt => exact .wiped _ (.capacity hgt) rfl
  next hle =>
  have hle : n ≤ op.capacity := Nat.le_of_not_lt hle
  have hcap : 0 < op.capacity := by
    rcases Nat.eq_zero_or_pos op.capacity with hzero | hpos
    · exact absurd ⟨by omega, hzero⟩ hempty
    · exact hpos
  by_cases hecjpake : k = .tls12EcjpakeToPms
  · subst hecjpake
    rw [read_ecjpake h.kind]
    by_cases hlen : n ≠ 32
    · rw [if_pos hlen]
      exact .wiped _ (.length rfl hlen) rfl
    rw [if_neg hlen]
    by_cases hhash : env.hash ≠ .success
    · rw [if_pos hhash]
      exact .wiped _ (.fault _ ⟨hhash, .inr rfl⟩) rfl
    · rw [if_neg hhash]
      exact .read op.ctx rfl hcap hle rfl (hread _ trivial hle) (absurd rfl ·) (absurd rfl ·)
  by_cases hcomplete : inputs.Complete k
  · obtain ⟨r, hr, hsegment⟩ := KdfInv.read n env { op with capacity := op.capacity - n }
      h.context h.kind hecjpake h.size hcomplete (h.limit.imp id fun hlim => by omega)
    rw [hr]
    rcases hsegment with ⟨ctx, rfl, hctx⟩ | ⟨e, rfl, hfault | ⟨rfl, hlimit⟩⟩
    · exact .read ctx rfl hcap hle rfl (hread ctx hctx hle) (fun _ => hcomplete) fun _ => rfl
    · exact .wiped e (.fault e hfault) rfl
    · refine .wiped _ (.counter hle ?_ hlimit) rfl
      exact h.limit.resolve_right fun hlim => by omega
  · rw [KdfInv.read_incomplete n env { op with capacity := op.capacity - n } h.context h.kind
      hecjpake hcomplete]
    exact .wiped _ (.incomplete hecjpake hcomplete) rfl

theorem psaKeyDerivationOutputBytes_idle (h : op.alg = 0) :
    psaKeyDerivationOutputBytes P env op n = ⟨.errorBadState, op, []⟩ := by
  unfold psaKeyDerivationOutputBytes
  rw [if_pos h]

theorem psaKeyDerivationOutputBytes_empty (halg : op.alg ≠ 0) (hcap : op.capacity = 0) :
    psaKeyDerivationOutputBytes P env op 0 = ⟨.errorInsufficientData, op, []⟩ := by
  unfold psaKeyDerivationOutputBytes
  rw [if_neg halg, if_pos ⟨rfl, hcap⟩]

theorem psaKeyDerivationOutputBytes_excess (halg : op.alg ≠ 0) (hlt : op.capacity < n) :
    psaKeyDerivationOutputBytes P env op n
      = ⟨if env.localAlloc then .errorInsufficientData else .errorInsufficientMemory,
        wipedOperation op.alg, []⟩ := by
  have hn : n ≠ 0 := by omega
  unfold psaKeyDerivationOutputBytes
  rw [if_neg halg, if_neg fun hempty => hn hempty.1, psaCryptoLocalAlloc, if_neg hn]
  cases env.localAlloc with
  | false => rfl
  | true =>
    rw [if_pos rfl, if_neg (by simp), if_pos hlt]
    rfl

variable (P env n) in
theorem psaKeyDerivationOutputBytes_no_capacity (hcap : op.capacity = 0) :
    ∃ e, e ≠ .success ∧ (psaKeyDerivationOutputBytes P env op n = ⟨e, op, []⟩ ∨
      psaKeyDerivationOutputBytes P env op n = ⟨e, wipedOperation op.alg, []⟩) := by
  unfold psaKeyDerivationOutputBytes
  split
  · exact ⟨_, by simp, .inl rfl⟩
  split
  · exact ⟨_, by simp, .inl rfl⟩
  next hempty =>
  split
  · exact ⟨_, by simp, .inr rfl⟩
  rw [if_pos (by omega)]
  exact ⟨_, by simp, .inr rfl⟩

theorem psaKeyDerivationOutputBytes_capacity_lt (hn : 0 < n)
    (h : (psaKeyDerivationOutputBytes P env op n).status = .success) :
    (psaKeyDerivationOutputBytes P env op n).operation.capacity < op.capacity := by
  unfold psaKeyDerivationOutputBytes at h ⊢
  dsimp only at h ⊢
  by_cases halg : op.alg = 0
  · rw [if_pos halg] at h
    cases h
  by_cases hempty : n = 0 ∧ op.capacity = 0
  · omega
  by_cases halloc : psaCryptoLocalAlloc env.localAlloc n ≠ .success
  · rw [if_neg halg, if_neg hempty, if_pos halloc] at h
    cases h
  by_cases hgt : n > op.capacity
  · rw [if_neg halg, if_neg hempty, if_neg halloc, if_pos hgt] at h
    cases h
  rw [if_neg halg, if_neg hempty, if_neg halloc, if_neg hgt] at h ⊢
  split at h
  · cases h
  · exact (by omega : 0 < op.capacity)
  · exact (by omega : op.capacity - n < op.capacity)

end Output

/-! ## Output to a key object -/

variable {I : PsaKeyDerivationOperation → Prop}

section OutputKey

variable {env : OutputKeyEnv} {attributes : PsaKeyAttributes}
  {customFlags customDataLength : Nat}

theorem weierstrassLoop_keeps
    (hdraw : ∀ env op n, I op → I (psaKeyDerivationOutputBytes P env op n).operation)
    (group : EcpGroup) (fuel i : Nat) (op : PsaKeyDerivationOperation) (h : I op) :
    I (weierstrassLoop P env group fuel i op).operation := by
  induction fuel generalizing i op with
  | zero => exact h
  | succ fuel ih =>
    have hdrawn := hdraw (env.output i) op (psaBitsToBytes group.nbits) h
    unfold weierstrassLoop
    dsimp only
    split
    · exact hdrawn
    split
    · exact hdrawn
    split
    · exact ih _ _ hdrawn
    · exact hdrawn

variable (env) in
theorem generateDerivedKeyData_keeps
    (hdraw : ∀ env op n, I op → I (psaKeyDerivationOutputBytes P env op n).operation)
    (type : PsaKeyType) (bits : Nat) (h : I op) :
    I (generateDerivedKeyData P env type bits op).operation := by
  unfold generateDerivedKeyData
  split
  · exact h
  split
  · split
    · unfold psaGenerateDerivedEccKeyWeierstrassHelper
      split
      · exact h
      split
      · exact h
      · exact weierstrassLoop_keeps hdraw _ _ _ _ h
    · unfold psaGenerateDerivedEccKeyMontgomeryHelper
      repeat' split
      all_goals first | exact h | exact hdraw _ _ _ h
  split
  · repeat' split
    all_goals first | exact h | exact hdraw _ _ _ h
  · exact h

theorem psaKeyDerivationOutputKeyCustom_keeps
    (hdraw : ∀ env op n, I op → I (psaKeyDerivationOutputBytes P env op n).operation) (h : I op) :
    I (psaKeyDerivationOutputKeyCustom P env attributes op customFlags
      customDataLength).operation := by
  have hdata := generateDerivedKeyData_keeps env hdraw attributes.type attributes.bits.toNat h
  have hgenerated : I (psaGenerateDerivedKeyInternal P env attributes op).operation := by
    unfold psaGenerateDerivedKeyInternal
    dsimp only
    repeat' split
    all_goals exact hdata
  unfold psaKeyDerivationOutputKeyCustom
  dsimp only
  repeat' split
  all_goals first | exact h | exact hgenerated

theorem generateDerivedKeyData_success {type : PsaKeyType} {bits : Nat}
    (h : (generateDerivedKeyData P env type bits op).status = .success) :
    ∃ i n, (psaKeyDerivationOutputBytes P (env.output i) op n).status = .success := by
  unfold generateDerivedKeyData at h
  split at h
  · cases h
  split at h
  · split at h
    · unfold psaGenerateDerivedEccKeyWeierstrassHelper at h
      split at h
      · next e _ => exact absurd h e.ne_success
      split at h
      · cases h
      unfold weierstrassLoop at h
      dsimp only at h
      split at h
      · next hne => exact absurd h hne
      · next hok => exact ⟨0, _, not_not.mp hok⟩
    · unfold psaGenerateDerivedEccKeyMontgomeryHelper at h
      repeat' split at h
      all_goals first | cases h | exact ⟨0, _, h⟩
  split at h
  · repeat' split at h
    all_goals first | cases h | exact ⟨0, _, h⟩
  · cases h

theorem psaKeyDerivationOutputKeyCustom_key
    (h : (psaKeyDerivationOutputKeyCustom P env attributes op customFlags
      customDataLength).key ≠ none) :
    (psaKeyDerivationOutputKeyCustom P env attributes op customFlags
      customDataLength).status = .success := by
  unfold psaKeyDerivationOutputKeyCustom at h ⊢
  dsimp only at h ⊢
  repeat' split
  all_goals first | rfl | simp_all

theorem psaKeyDerivationOutputKeyCustom_success
    (h : (psaKeyDerivationOutputKeyCustom P env attributes op customFlags
      customDataLength).status = .success) :
    op.alg ≠ 0 ∧ op.canOutputKey = true ∧
      ∃ i n, (psaKeyDerivationOutputBytes P (env.output i) op n).status = .success := by
  unfold psaKeyDerivationOutputKeyCustom at h
  split at h
  · cases h
  split at h
  · cases h
  split at h
  · cases h
  next halg =>
  split at h
  · cases h
  next hpermitted =>
  rw [not_not] at hpermitted
  split at h
  · next hne => exact absurd h hne
  dsimp only at h
  split at h
  · next hne => exact absurd h hne
  next hgenerated =>
  rw [not_not] at hgenerated
  refine ⟨halg, hpermitted, ?_⟩
  unfold psaGenerateDerivedKeyInternal at hgenerated
  dsimp only at hgenerated
  split at hgenerated
  · next hne => exact absurd hgenerated hne
  · next hok => exact generateDerivedKeyData_success (not_not.mp hok)

end OutputKey

end TfPsaCrypto
