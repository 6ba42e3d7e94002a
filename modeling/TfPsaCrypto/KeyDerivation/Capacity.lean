import TfPsaCrypto.KeyDerivation.Protocol

/-!
# Capacity

The capacity protects the block counters of the read functions, but for that of the TLS 1.2 PRF.
-/

namespace TfPsaCrypto

variable {P : KdfPlatform} {l : List KdfEvent} {k : Kdf} {inputs : KdfInputs} {pos n : Nat}
  {op op' : PsaKeyDerivationOperation}

/-! ## The capacity never increases -/

theorem psaKeyDerivationOutputBytes_capacity_le (env : OutputEnv)
    (op : PsaKeyDerivationOperation) (n : Nat) :
    (psaKeyDerivationOutputBytes P env op n).operation.capacity ≤ op.capacity := by
  unfold psaKeyDerivationOutputBytes
  dsimp only
  split
  · exact Nat.le_refl _
  split
  · exact Nat.le_refl _
  split
  · exact Nat.zero_le _
  split
  · exact Nat.zero_le _
  split
  · exact Nat.sub_le _ _
  · exact Nat.zero_le _
  · exact Nat.sub_le _ _

theorem kdfCall_capacity_le (hop : Supported op) (halg : op.alg ≠ 0) (env : KdfEnv)
    (call : KdfCall) (hin : (kdfCall P env op call).operation.alg ≠ 0) :
    (kdfCall P env op call).operation.capacity ≤ op.capacity := by
  have hinput : ∀ fromKey r, InputOutcome P env.input op fromKey r →
      r.operation.alg ≠ 0 → r.operation.capacity ≤ op.capacity := by
    intro fromKey r hr hne
    cases hr with
    | taken x ctx _ _ _ heq => rw [heq]
    | refused _ _ heq => rw [heq]
    | wiped _ _ heq =>
      rw [heq] at hne
      exact absurd rfl hne
  cases call with
  | setup alg =>
    cases psaKeyDerivationSetup_outcome P op env.hashTrySupport alg with
    | started _ _ _ hidle => exact absurd hidle halg
    | failed _ _ _ hsame => exact (congrArg _ (hsame halg)).le
  | getCapacity => exact Nat.le_refl _
  | setCapacity capacity =>
    obtain ⟨c, hle, heq⟩ := psaKeyDerivationSetCapacity_operation op capacity
    exact (congrArg _ heq).trans_le hle
  | inputBytes step data => exact hinput _ _ (psaKeyDerivationInputBytes_outcome hop) hin
  | inputInteger step value =>
    exact hinput _ _ psaKeyDerivationInputInteger_outcome hin
  | inputKey step key =>
    exact hinput _ _ (psaKeyDerivationInputKey_outcome P env.input step hop key).1 hin
  | keyAgreement step privateKey peerKey =>
    exact hinput _ _ (psaKeyDerivationKeyAgreement_outcome hop) hin
  | outputBytes n => exact psaKeyDerivationOutputBytes_capacity_le env.output op n
  | outputKey attributes customFlags customDataLength =>
    exact psaKeyDerivationOutputKeyCustom_keeps
      (I := fun x => x.capacity ≤ op.capacity)
      (fun env x n hx => (psaKeyDerivationOutputBytes_capacity_le env x n).trans hx)
      (Nat.le_refl _)
  | abort => exact absurd rfl hin

theorem capacity_le_run {tr tr' : List KdfEvent}
    (h : Machine.Run (kdfMachine P) psaKeyDerivationOperationInit tr op)
    (halg : op.alg ≠ 0) (h' : Machine.Run (kdfMachine P) op tr' op')
    (hin : ∀ e ∈ tr', e.2.operation.alg ≠ 0) :
    op'.capacity ≤ op.capacity ∧ op'.alg ≠ 0 := by
  refine (h'.invariant
    (I := fun tr' op' => (∃ tr, Machine.Run (kdfMachine P) psaKeyDerivationOperationInit
      (tr ++ tr') op') ∧ op'.capacity ≤ op.capacity ∧ op'.alg ≠ 0)
    (P := fun e => e.2.operation.alg ≠ 0) ⟨⟨tr, by simpa using h⟩, Nat.le_refl _, halg⟩
    ?_ hin).2
  rintro tr₁ op₁ a op₂ o ⟨⟨tr, hrun⟩, hle, hne⟩ ho hs
  have hnext := hrun.snoc hs
  obtain ⟨rfl, rfl⟩ := kdfMachine_eq hs
  refine ⟨⟨tr, by rwa [← List.append_assoc]⟩, ?_, ho⟩
  exact (kdfCall_capacity_le (kdfOperationInv_run hrun).supported hne a.2 a.1 ho).trans hle

/-! ## Nothing comes out of an operation without capacity -/

structure Silent (op : PsaKeyDerivationOperation) : Prop where
  supported : Supported op
  empty : op.alg = 0 ∨ op.capacity = 0

theorem Silent.output (h : Silent op) (env : OutputEnv) (n : Nat) :
    Silent (psaKeyDerivationOutputBytes P env op n).operation ∧
      (psaKeyDerivationOutputBytes P env op n).output = [] ∧
      (psaKeyDerivationOutputBytes P env op n).status ≠ .success := by
  rcases h.empty with halg | hcap
  · rw [psaKeyDerivationOutputBytes_idle halg]
    exact ⟨h, rfl, by simp⟩
  obtain ⟨e, hne, heq | heq⟩ := psaKeyDerivationOutputBytes_no_capacity P env n hcap
  · rw [heq]
    exact ⟨h, rfl, hne⟩
  · rw [heq]
    exact ⟨⟨h.supported, .inr rfl⟩, rfl, hne⟩

theorem Silent.input (h : Silent op) {env : InputEnv} {fromKey : Bool} {r : InputResult}
    (hr : InputOutcome P env op fromKey r) : Silent r.operation := by
  cases hr with
  | taken x ctx _ _ _ heq =>
    rw [heq]
    exact ⟨h.supported, h.empty⟩
  | refused _ _ heq =>
    rw [heq]
    exact h
  | wiped _ _ heq =>
    rw [heq]
    exact ⟨.inl rfl, .inl rfl⟩

theorem Silent.step (h : Silent op) {a : KdfCall × KdfEnv} {o : KdfObservation}
    (hs : kdfMachine P op a = some (op', o)) (hsetup : KdfEvent.isSetup (a, o) = false) :
    Silent op' ∧ o.output = [] ∧ o.key = none := by
  obtain ⟨rfl, rfl⟩ := kdfMachine_eq hs
  obtain ⟨call, env⟩ := a
  cases call with
  | setup alg =>
    cases psaKeyDerivationSetup_outcome P op env.hashTrySupport alg with
    | started k capacity hok => exact absurd hok (of_decide_eq_false hsetup)
    | failed _ halg _ hsame =>
      refine ⟨?_, rfl, rfl⟩
      by_cases hidle : op.alg = 0
      · exact ⟨.inl (halg.trans hidle), .inl (halg.trans hidle)⟩
      · show Silent (psaKeyDerivationSetup P env.hashTrySupport op alg).2
        rw [hsame hidle]
        exact h
  | getCapacity => exact ⟨h, rfl, rfl⟩
  | setCapacity capacity =>
    obtain ⟨c, hle, heq⟩ := psaKeyDerivationSetCapacity_operation op capacity
    refine ⟨?_, rfl, rfl⟩
    show Silent (psaKeyDerivationSetCapacity op capacity).2
    rw [heq]
    refine ⟨h.supported, h.empty.imp id fun hcap => ?_⟩
    exact Nat.le_zero.mp (hle.trans_eq hcap)
  | inputBytes step data =>
    exact ⟨h.input (psaKeyDerivationInputBytes_outcome h.supported), rfl, rfl⟩
  | inputInteger step value =>
    exact ⟨h.input (P := P) psaKeyDerivationInputInteger_outcome, rfl, rfl⟩
  | inputKey step key =>
    exact ⟨h.input (psaKeyDerivationInputKey_outcome P env.input step h.supported key).1, rfl, rfl⟩
  | keyAgreement step privateKey peerKey =>
    exact ⟨h.input (psaKeyDerivationKeyAgreement_outcome h.supported), rfl, rfl⟩
  | outputBytes n =>
    obtain ⟨hsilent, hnothing, _⟩ := h.output (P := P) env.output n
    exact ⟨hsilent, hnothing, rfl⟩
  | outputKey attributes customFlags customDataLength =>
    refine ⟨psaKeyDerivationOutputKeyCustom_keeps (fun env x n hx => (hx.output env n).1) h,
      rfl, ?_⟩
    by_contra hkey
    have hok : (psaKeyDerivationOutputKeyCustom P env.outputKey attributes op customFlags
        customDataLength).status = .success :=
      psaKeyDerivationOutputKeyCustom_key hkey
    obtain ⟨_, _, i, n, hdrawn⟩ := psaKeyDerivationOutputKeyCustom_success hok
    exact (h.output (env.outputKey.output i) n).2.2 hdrawn
  | abort => exact ⟨⟨.inl rfl, .inl rfl⟩, rfl, rfl⟩

theorem Silent.run {tr : List KdfEvent} (h : Silent op)
    (hrun : Machine.Run (kdfMachine P) op tr op')
    (hsetup : ∀ e ∈ tr, KdfEvent.isSetup e = false) :
    ∀ e ∈ tr, e.2.output = [] ∧ e.2.key = none := by
  have hrule := hrun.invariant
    (I := fun tr op => Silent op ∧ ∀ e ∈ tr, e.2.output = [] ∧ e.2.key = none)
    (P := fun e => KdfEvent.isSetup e = false)
  refine (hrule ⟨h, by simp⟩ ?_ hsetup).2
  rintro tr op a op' o ⟨hsilent, hnothing⟩ ho hs
  obtain ⟨hsilent', hlast⟩ := hsilent.step hs ho
  refine ⟨hsilent', fun e he => ?_⟩
  rcases List.mem_append.mp he with he | he
  · exact hnothing e he
  · rw [List.mem_singleton.mp he]
    exact hlast

/-! ## The block counters -/

def tls12PrfBytesLeft (op : PsaKeyDerivationOperation) : Nat :=
  (0xff - op.ctx.tls12Prf.blockNumber) * psaHashLength (psaAlgKdfGetHash (kdfAlgOf op.alg))
    + op.ctx.tls12Prf.leftInBlock

def WithinBlockCounter (op : PsaKeyDerivationOperation) (n : Nat) : Prop :=
  psaAlgIsTls12Prf (kdfAlgOf op.alg) = true → n ≤ tls12PrfBytesLeft op

theorem StandsAt.tls12Prf_reading (h : StandsAt P .tls12Prf inputs pos op) :
    pos + tls12PrfBytesLeft op
      = Kdf.tls12Prf.blockLimit * Kdf.tls12Prf.blockSize (kdfAlgOf op.alg) := by
  have hinv : Tls12PrfInv P .tls12Prf (kdfAlgOf op.alg) inputs pos op.ctx.tls12Prf := h.context
  obtain ⟨_, hle, hpos, _⟩ := hinv.reading
  have hsize : psaHashLength (psaAlgKdfGetHash (kdfAlgOf op.alg))
      = Kdf.tls12Prf.blockSize (kdfAlgOf op.alg) := rfl
  have hlimit : Kdf.tls12Prf.blockLimit = 0xff := rfl
  rw [tls12PrfBytesLeft, hsize, hlimit, Nat.sub_mul]
  have hmul := Nat.mul_le_mul_right (Kdf.tls12Prf.blockSize (kdfAlgOf op.alg)) hle
  omega

theorem KdfActive.output_status (h : KdfActive P l k op)
    (hcomplete : k ≠ .tls12EcjpakeToPms → (suppliedInputs l).Complete k)
    (env : OutputEnv) (hle : n ≤ op.capacity) (hwithin : WithinBlockCounter op n)
    (hstatus : (psaKeyDerivationOutputBytes P env op n).status = .errorBadState ∨
      (psaKeyDerivationOutputBytes P env op n).status = .errorCorruptionDetected) :
    env.Fault (psaKeyDerivationOutputBytes P env op n).status := by
  by_cases hcap : op.capacity = 0
  · obtain rfl : n = 0 := by omega
    rw [psaKeyDerivationOutputBytes_empty (alg_ne_zero h.kind) hcap] at hstatus
    simp at hstatus
  obtain ⟨⟨pos, hstands⟩, -, -⟩ := h.live hcap
  cases psaKeyDerivationOutputBytes_outcome env n hstands with
  | read _ hok => simp [hok] at hstatus
  | exhausted _ hzero => exact absurd hzero hcap
  | wiped e hreason hr =>
    rw [hr] at hstatus ⊢
    cases hreason with
    | memory | length => simp at hstatus
    | capacity hlt => exact absurd hle (Nat.not_le_of_lt hlt)
    | incomplete hne hnot => exact absurd (hcomplete hne) hnot
    | fault e hfault => exact hfault
    | counter _ hk hlimit =>
      subst hk
      have hread := hstands.tls12Prf_reading
      have hn := hwithin hstands.kind
      omega

theorem KdfActive.output_corruption (h : KdfActive P l k op)
    (hcomplete : k ≠ .tls12EcjpakeToPms → (suppliedInputs l).Complete k)
    {env : OutputEnv} (hle : n ≤ op.capacity) (hbeyond : ¬ WithinBlockCounter op n)
    (halloc : psaCryptoLocalAlloc env.localAlloc n = .success)
    (hfault : ∀ e, ¬ env.Fault e) :
    (psaKeyDerivationOutputBytes P env op n).status = .errorCorruptionDetected := by
  unfold WithinBlockCounter at hbeyond
  rw [Classical.not_imp] at hbeyond
  obtain ⟨hprf, hbeyond⟩ := hbeyond
  have hkind : Kdf.tls12Prf.Is (kdfAlgOf op.alg) = true := hprf
  obtain rfl : Kdf.tls12Prf = k := of_decide_eq_true
    ((Kdf.is_iff h.kind .tls12Prf).symm.trans hkind)
  obtain ⟨⟨pos, hstands⟩, -, -⟩ := h.live (by omega)
  have hread := hstands.tls12Prf_reading
  cases psaKeyDerivationOutputBytes_outcome env n hstands with
  | read _ _ _ _ hop hnext _ _ =>
    -- the position after the request would be beyond the last block
    have hread' := hnext.tls12Prf_reading
    rw [hop] at hread'
    have hread' : pos + n + tls12PrfBytesLeft _
      = Kdf.tls12Prf.blockLimit * Kdf.tls12Prf.blockSize (kdfAlgOf op.alg) := hread'
    omega
  | exhausted hzero => omega
  | wiped e hreason hr =>
    rw [hr]
    cases hreason with
    | memory hn hfalse =>
      rw [psaCryptoLocalAlloc, if_neg hn, hfalse] at halloc
      cases halloc
    | capacity hlt => exact absurd hle (Nat.not_le_of_lt hlt)
    | incomplete hne hnot => exact absurd (hcomplete hne) hnot
    | length hecjpake => cases hecjpake
    | fault e he => exact absurd he (hfault e)
    | counter => rfl

/-! ## Capacity accounting -/

/-- **Capacity.** In every run the capacity of an operation in use never increases, and an output
call takes from it exactly what it gives out; a request for more wipes the operation with
`PSA_ERROR_INSUFFICIENT_DATA`; one for less within the block counter fails with a bad state or a
corruption only where a computation does. -/
theorem capacity_accounting {tr : List KdfEvent}
    (h : Machine.Run (kdfMachine P) psaKeyDerivationOperationInit tr op)
    (halg : op.alg ≠ 0) :
    (∀ tr' op', Machine.Run (kdfMachine P) op tr' op' →
      (∀ e ∈ tr', e.2.operation.alg ≠ 0) → op'.capacity ≤ op.capacity) ∧
    (∀ env n, (psaKeyDerivationOutputBytes P env op n).status = .success →
      (psaKeyDerivationOutputBytes P env op n).operation.capacity + n = op.capacity) ∧
    (∀ env n, op.capacity < n →
      ((psaKeyDerivationOutputBytes P env op n).status = .errorInsufficientData ↔
        env.localAlloc = true) ∧
      (psaKeyDerivationOutputBytes P env op n).output = [] ∧
      (psaKeyDerivationOutputBytes P env op n).operation = wipedOperation op.alg ∧
      ∀ tr' op', Machine.Run (kdfMachine P) (wipedOperation op.alg) tr' op' →
        (∀ e ∈ tr', KdfEvent.isSetup e = false) →
        ∀ e ∈ tr', e.2.output = [] ∧ e.2.key = none) ∧
    ∃ k : Kdf, k.Is (kdfAlgOf op.alg) = true ∧
      ((k ≠ .tls12EcjpakeToPms → (suppliedInputs (sinceSetup tr)).Complete k) →
        ∀ env n, n ≤ op.capacity →
          (WithinBlockCounter op n →
            (psaKeyDerivationOutputBytes P env op n).status = .errorBadState ∨
              (psaKeyDerivationOutputBytes P env op n).status = .errorCorruptionDetected →
            env.Fault (psaKeyDerivationOutputBytes P env op n).status) ∧
          ((∀ e, ¬ env.Fault e) → psaCryptoLocalAlloc env.localAlloc n = .success →
            (((psaKeyDerivationOutputBytes P env op n).status ≠ .errorBadState ∧
              (psaKeyDerivationOutputBytes P env op n).status ≠ .errorCorruptionDetected) ↔
              WithinBlockCounter op n))) := by
  obtain ⟨k, hk⟩ := (kdfOperationInv_run h).resolve_left fun hidle => halg hidle.1
  refine ⟨fun tr' op' h' hin => (capacity_le_run h halg h' hin).1, fun env n hok => ?_,
    fun env n hlt => ?_, k, hk.kind, fun hcomplete env n hle => ⟨?_, ?_⟩⟩
  · obtain ⟨k, hk, hcap⟩ := (kdfOperationInv_run h).of_output hok
    obtain ⟨⟨pos, hstands⟩, -, -⟩ := hk.live hcap
    cases psaKeyDerivationOutputBytes_outcome env n hstands with
    | read _ _ _ hle hop =>
      rw [hop]
      exact Nat.sub_add_cancel hle
    | exhausted _ hzero => exact absurd hzero hcap
    | wiped e hreason hr =>
      rw [hr] at hok
      exact absurd hok hreason.ne_success
  · rw [psaKeyDerivationOutputBytes_excess halg hlt]
    refine ⟨by cases env.localAlloc <;> simp, rfl, rfl, fun tr' op' h' hsetup => ?_⟩
    have hsilent : Silent (wipedOperation op.alg) := ⟨.inr ⟨k, hk.kind⟩, .inr rfl⟩
    exact hsilent.run h' hsetup
  · exact hk.output_status hcomplete env hle
  · intro hfault halloc
    refine ⟨fun hstatus => ?_, fun hwithin => ?_⟩
    · by_contra hbeyond
      exact hstatus.2 (hk.output_corruption hcomplete hle hbeyond halloc hfault)
    · rw [← not_or]
      exact fun hstatus => hfault _ (hk.output_status hcomplete env hle hwithin hstatus)

/-- ECJPAKE-to-PMS is asked for 33 bytes. -/
theorem capacity_accounting_witness :
    let setup : KdfCall × KdfEnv := (.setup psaAlgTls12EcjpakeToPms, permissiveKdfEnv)
    ∃ o op, Machine.Run (kdfMachine zeroCoordinatePlatform) psaKeyDerivationOperationInit
        [(setup, o)] op ∧ op.capacity = 32 ∧
      (psaKeyDerivationOutputBytes zeroCoordinatePlatform permissiveOutputEnv op 33).status
        = .errorInsufficientData := by
  intro setup
  have hrun : Machine.Run (kdfMachine zeroCoordinatePlatform) psaKeyDerivationOperationInit
      ([] ++ [(setup, _)]) _ := Machine.Run.nil.snoc rfl
  obtain ⟨_, _, hexcess, _⟩ := capacity_accounting hrun (by decide)
  exact ⟨_, _, hrun, by decide, (hexcess permissiveOutputEnv 33 (by decide)).1.mpr rfl⟩

def tls12PrfOperation (capacity : Nat) (prf : PsaTls12PrfKeyDerivation) :
    PsaKeyDerivationOperation :=
  { psaKeyDerivationOperationInit with
    alg := 0x08000209, capacity := capacity
    ctx := { psaKeyDerivationContextZero with tls12Prf := prf } }

theorem tls12PrfOperation_inputBytes {capacity : Nat} {prf : PsaTls12PrfKeyDerivation}
    (step : PsaKeyDerivationStep) (data : Bytes.ByteString)
    (prf' : PsaTls12PrfKeyDerivation)
    (htype : psaKeyDerivationCheckInputType step psaKeyTypeNone = .success)
    (hin : psaTls12PrfInput permissiveKdfEnv.input prf step data = .ok prf') :
    kdfMachine P (tls12PrfOperation capacity prf) (.inputBytes step data, permissiveKdfEnv)
      = some (tls12PrfOperation capacity prf',
        .ofInput ⟨.success, tls12PrfOperation capacity prf', some (step, .bytes data)⟩) := by
  have hkdf : kdfAlgOf 0x08000209 = 0x08000209 := by decide
  have hdispatch : psaKeyDerivationInputContext P permissiveKdfEnv.input
      (tls12PrfOperation capacity prf).ctx (kdfAlgOf 0x08000209) step data
        = some (.ok (tls12PrfOperation capacity prf').ctx) := by
    rw [psaKeyDerivationInputContext, hkdf, if_neg (by decide), if_pos (by decide)]
    exact congrArg (fun r => some (Except.map _ r)) hin
  have hne : kdfAlgOf (tls12PrfOperation capacity prf).alg ≠ 0 := by
    show kdfAlgOf 0x08000209 ≠ 0
    decide
  have hbytes : psaKeyDerivationInputBytes P permissiveKdfEnv.input
      (tls12PrfOperation capacity prf) step data = _ :=
    psaKeyDerivationInputBytes_accepted rfl hne htype hdispatch
  exact congrArg (fun r => some (InputResult.operation r, KdfObservation.ofInput r)) hbytes

/-- **Counterexample.** The capacity of the TLS 1.2 PRF with SHA-256 allows a request for 255
blocks and one byte, which fails with a corruption. -/
theorem tls12Prf_capacity_beyond_counter :
    ¬ ∃ P : KdfPlatform, ∀ tr op k env n,
      Machine.Run (kdfMachine P) psaKeyDerivationOperationInit tr op →
      k.Is (kdfAlgOf op.alg) = true → (suppliedInputs (sinceSetup tr)).Complete k →
      n ≤ op.capacity → env.localAlloc = true → (∀ e, ¬ env.Fault e) →
      (psaKeyDerivationOutputBytes P env op n).status ≠ .errorBadState ∧
        (psaKeyDerivationOutputBytes P env op n).status ≠ .errorCorruptionDetected := by
  rintro ⟨P, h⟩
  let zero := psaKeyDerivationContextZero.tls12Prf
  let seeded := { zero with seed := [1], state := .seedSet }
  let keyed := { seeded with secret := [2], state := .keySet }
  let labelled := { keyed with label := [3], state := .labelSet }
  have hsetup : kdfMachine P psaKeyDerivationOperationInit
      (.setup 0x08000209, permissiveKdfEnv)
        = some (tls12PrfOperation P.sizeMax zero,
          .ofStatus (.success, tls12PrfOperation P.sizeMax zero)) := by rfl
  obtain ⟨tr, hcomplete, hrun⟩ : ∃ tr, (suppliedInputs (sinceSetup tr)).Complete .tls12Prf ∧
      Machine.Run (kdfMachine P) psaKeyDerivationOperationInit tr
        (tls12PrfOperation P.sizeMax labelled) := by
    refine ⟨_, ?_, (((Machine.Run.nil.snoc hsetup).snoc
      (tls12PrfOperation_inputBytes .seed [1] seeded (by decide) (by rfl))).snoc
      (tls12PrfOperation_inputBytes .secret [2] keyed (by decide) (by rfl))).snoc
      (tls12PrfOperation_inputBytes .label [3] labelled (by decide) (by rfl))⟩
    rw [sinceSetup_append rfl, sinceSetup_append rfl, sinceSetup_append rfl, sinceSetup_setup rfl]
    exact ⟨rfl, rfl, rfl⟩
  obtain ⟨k, hk⟩ := (kdfOperationInv_run hrun).resolve_left fun hidle =>
    absurd (show (0x08000209 : PsaAlgorithm) = 0 from hidle.1) (by decide)
  have hkind : k.Is (kdfAlgOf 0x08000209) = true := hk.kind
  obtain rfl : Kdf.tls12Prf = k := of_decide_eq_true
    ((Kdf.is_iff hkind .tls12Prf).symm.trans (by decide))
  have hle : 8161 ≤ (tls12PrfOperation P.sizeMax labelled).capacity := by
    show 8161 ≤ P.sizeMax
    have hmax := P.sizeMax_eq
    omega
  have hbeyond : ¬ WithinBlockCounter (tls12PrfOperation P.sizeMax labelled) 8161 := by
    intro hwithin
    have hsize : psaHashLength (psaAlgKdfGetHash (kdfAlgOf 0x08000209)) = 32 := by decide
    have hn : 8161 ≤ 0xff * psaHashLength (psaAlgKdfGetHash (kdfAlgOf 0x08000209)) + 0 :=
      hwithin hk.kind
    omega
  have hfault : ∀ e, ¬ permissiveOutputEnv.Fault e := by
    rintro e ⟨hne, ⟨_, _, he⟩ | he⟩
    · exact hne he.symm
    · exact hne he.symm
  exact (h _ _ .tls12Prf permissiveOutputEnv 8161 hrun hk.kind hcomplete hle rfl hfault).2
    (hk.output_corruption (fun _ => hcomplete) hle hbeyond rfl hfault)

end TfPsaCrypto
