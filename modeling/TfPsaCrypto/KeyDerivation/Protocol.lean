import TfPsaCrypto.KeyDerivation.Calls
import TfPsaCrypto.Library.History
import TfPsaCrypto.Library.Machine

/-!
# Sequences of key derivation calls

In every run an operation is not in use, or has no capacity left, or its context is that of its
accepted inputs (`OperationInv`).
-/

namespace TfPsaCrypto

open Bytes (ByteString)

/-! ## The machine -/

inductive KdfCall where
  | setup (alg : PsaAlgorithm)
  | getCapacity
  | setCapacity (capacity : Nat)
  | inputBytes (step : PsaKeyDerivationStep) (data : ByteString)
  | inputInteger (step : PsaKeyDerivationStep) (value : Nat)
  | inputKey (step : PsaKeyDerivationStep) (key : PsaKeyId)
  | keyAgreement (step : PsaKeyDerivationStep) (privateKey : PsaKeyId) (peerKey : ByteString)
  | outputBytes (outputLength : Nat)
  | outputKey (attributes : PsaKeyAttributes) (customFlags customDataLength : Nat)
  | abort

structure KdfEnv where
  hashTrySupport : PsaAlgorithm → PsaStatus
  macAbort : PsaStatus
  input : InputEnv
  output : OutputEnv
  outputKey : OutputKeyEnv

/-- What a call leaves: its status, the operation, the input that took effect, the
bytes and the key object that it gave out. -/
structure KdfObservation where
  status : PsaStatus
  operation : PsaKeyDerivationOperation
  supplied : Option (PsaKeyDerivationStep × KdfInput)
  output : ByteString
  key : Option KeyObject

def KdfObservation.ofStatus (r : PsaStatus × PsaKeyDerivationOperation) :
    KdfObservation :=
  { status := r.1, operation := r.2, supplied := none, output := [], key := none }

def KdfObservation.ofInput (r : InputResult) : KdfObservation :=
  { status := r.status, operation := r.operation, supplied := r.supplied,
    output := [], key := none }

def KdfObservation.ofOutput (r : OutputResult) : KdfObservation :=
  { status := r.status, operation := r.operation, supplied := none,
    output := r.output, key := none }

def KdfObservation.ofOutputKey (r : OutputKeyResult) : KdfObservation :=
  { status := r.status, operation := r.operation, supplied := none,
    output := [], key := r.key }

variable (P : KdfPlatform)

def kdfCall (env : KdfEnv) (operation : PsaKeyDerivationOperation) :
    KdfCall → KdfObservation
  | .setup alg => .ofStatus (psaKeyDerivationSetup P env.hashTrySupport operation alg)
  | .getCapacity => .ofStatus ((psaKeyDerivationGetCapacity operation).1, operation)
  | .setCapacity capacity => .ofStatus (psaKeyDerivationSetCapacity operation capacity)
  | .inputBytes step data =>
    .ofInput (psaKeyDerivationInputBytes P env.input operation step data)
  | .inputInteger step value =>
    .ofInput (psaKeyDerivationInputInteger env.input operation step value)
  | .inputKey step key =>
    .ofInput (psaKeyDerivationInputKey P env.input operation step key)
  | .keyAgreement step privateKey peerKey =>
    .ofInput (psaKeyDerivationKeyAgreement P env.input operation step privateKey peerKey)
  | .outputBytes outputLength =>
    .ofOutput (psaKeyDerivationOutputBytes P env.output operation outputLength)
  | .outputKey attributes customFlags customDataLength =>
    .ofOutputKey (psaKeyDerivationOutputKeyCustom P env.outputKey attributes operation
      customFlags customDataLength)
  | .abort => .ofStatus (psaKeyDerivationAbort env.macAbort operation)

def kdfMachine :
    Machine.StepFn PsaKeyDerivationOperation (KdfCall × KdfEnv) KdfObservation :=
  fun operation a =>
    let r := kdfCall P a.2 operation a.1
    some (r.operation, r)

abbrev KdfEvent := (KdfCall × KdfEnv) × KdfObservation

/-! ## What a run has supplied -/

def KdfEvent.isSetup (e : KdfEvent) : Bool :=
  match e.1.1 with
  | .setup _ => e.2.status = .success
  | _ => false

def KdfEvent.isAbort (e : KdfEvent) : Bool :=
  match e.1.1 with
  | .abort => true
  | _ => false

def sinceSetup (tr : List KdfEvent) : List KdfEvent := History.since KdfEvent.isSetup tr

def acceptedInputs (l : List KdfEvent) : List (PsaKeyDerivationStep × KdfInput) :=
  l.filterMap fun e => e.2.supplied

def suppliedInputs (l : List KdfEvent) : KdfInputs :=
  (acceptedInputs l).foldl (fun inputs x => inputs.supply (some x)) .empty

variable {P}

theorem suppliedInputs_append (l : List KdfEvent) (e : KdfEvent) :
    suppliedInputs (l ++ [e]) = (suppliedInputs l).supply e.2.supplied := by
  rw [suppliedInputs, acceptedInputs, List.filterMap_append, List.foldl_append]
  cases hs : e.2.supplied with
  | none => simp [hs, suppliedInputs, acceptedInputs]
  | some x => simp [hs, suppliedInputs, acceptedInputs]

@[simp] theorem suppliedInputs_singleton (e : KdfEvent) (h : e.2.supplied = none) :
    suppliedInputs [e] = .empty := by
  simp [suppliedInputs, acceptedInputs, h]

/-- A secret or password came from a key object whose policy permits it, or a secret from a key
agreement. The status is success, or that of the release of the slot. -/
def FromKeyObject (alg : PsaAlgorithm) (e : KdfEvent) : Prop :=
  e.2.supplied.isSome = true ∧
    (e.2.status = .success ∨ e.2.status = e.1.2.input.unregister) ∧
    match e.1.1 with
    | .inputKey step key => (step = .secret ∨ step = .password) ∧
        ∃ slot, e.1.2.input.lookup key = .ok slot ∧ PermitsDerive alg slot
    | .keyAgreement step _ _ => step = .secret
    | _ => False

/-! ## The invariant -/

/-- What holds while an operation has capacity left: nothing has wiped it since its
setup, its context comes from its inputs, and a key object unlocked it. -/
structure KdfLive (P : KdfPlatform) (l : List KdfEvent) (k : Kdf)
    (op : PsaKeyDerivationOperation) : Prop where
  stands : ∃ pos, StandsAt P k (suppliedInputs l) pos op
  fromKey : op.canOutputKey = true → ∃ e ∈ l, FromKeyObject op.alg e
  kept : ∀ e ∈ l, e.isAbort = false ∧ e.2.operation.alg = op.alg ∧ 0 < e.2.operation.capacity

/-- An operation in use, `l` being the calls since its setup. -/
structure KdfActive (P : KdfPlatform) (l : List KdfEvent) (k : Kdf)
    (op : PsaKeyDerivationOperation) : Prop where
  setup : ∃ env o rest, l = ((.setup op.alg, env), o) :: rest ∧ o.status = .success
  kind : k.Is (kdfAlgOf op.alg) = true
  secrets : k = .tls12EcjpakeToPms →
    ((suppliedInputs l).bytes .secret).length = (acceptedInputs l).length
  live : op.capacity ≠ 0 → KdfLive P l k op

def KdfOperationInv (P : KdfPlatform) (l : List KdfEvent)
    (op : PsaKeyDerivationOperation) : Prop :=
  (op.alg = 0 ∧ op.canOutputKey = false) ∨ ∃ k, KdfActive P l k op

variable {l : List KdfEvent} {k : Kdf} {op : PsaKeyDerivationOperation} {e : KdfEvent}

theorem KdfOperationInv.supported (h : KdfOperationInv P l op) : Supported op :=
  h.imp And.left fun ⟨k, hk⟩ => ⟨k, hk.kind⟩

theorem KdfActive.append (h : KdfActive P l k op) (habort : e.isAbort = false)
    (hnone : e.2.supplied = none) (hop : e.2.operation = op) : KdfActive P (l ++ [e]) k op := by
  have hinputs : suppliedInputs (l ++ [e]) = suppliedInputs l := by
    rw [suppliedInputs_append, hnone]
    rfl
  have haccepted : acceptedInputs (l ++ [e]) = acceptedInputs l := by
    simp [acceptedInputs, hnone]
  obtain ⟨env, o, rest, hl, hok⟩ := h.setup
  refine ⟨⟨env, o, rest ++ [e], by rw [hl]; rfl, hok⟩, h.kind, ?_, fun hcap => ?_⟩
  · rw [hinputs, haccepted]
    exact h.secrets
  obtain ⟨hstands, hkey, hkept⟩ := h.live hcap
  refine ⟨hinputs ▸ hstands, fun hout => ?_, fun x hx => ?_⟩
  · obtain ⟨x, hx, hfrom⟩ := hkey hout
    exact ⟨x, List.mem_append_left _ hx, hfrom⟩
  · rcases List.mem_append.mp hx with hx | hx
    · exact hkept x hx
    · rw [List.mem_singleton.mp hx, hop]
      exact ⟨habort, rfl, Nat.pos_of_ne_zero hcap⟩

theorem KdfOperationInv.append (h : KdfOperationInv P l op) (habort : e.isAbort = false)
    (hnone : e.2.supplied = none) (hop : e.2.operation = op) :
    KdfOperationInv P (l ++ [e]) op :=
  h.imp id fun ⟨k, hk⟩ => ⟨k, hk.append habort hnone hop⟩

theorem KdfActive.setCapacity (h : KdfActive P l k op) {capacity : Nat}
    (hle : capacity ≤ op.capacity) : KdfActive P l k { op with capacity := capacity } := by
  refine ⟨h.setup, h.kind, h.secrets, fun hcap => ?_⟩
  have hcap : capacity ≠ 0 := hcap
  obtain ⟨⟨pos, hstands⟩, hkey, hkept⟩ := h.live (by omega)
  refine ⟨⟨pos, hstands.kind, hstands.size, hstands.context, ?_⟩, hkey, hkept⟩
  exact hstands.limit.imp id fun hlim => by
    show pos + capacity ≤ k.blockLimit * k.blockSize (kdfAlgOf op.alg)
    omega

theorem KdfActive.output (h : KdfActive P l k op) (env : OutputEnv) (n : Nat) :
    KdfActive P l k (psaKeyDerivationOutputBytes P env op n).operation := by
  have hwiped : KdfActive P l k (wipedOperation op.alg) :=
    ⟨h.setup, h.kind, h.secrets, fun hcap => absurd rfl hcap⟩
  by_cases hcap : op.capacity = 0
  · obtain ⟨e, _, heq | heq⟩ := psaKeyDerivationOutputBytes_no_capacity P env n hcap
    · rw [heq]
      exact h
    · rw [heq]
      exact hwiped
  obtain ⟨⟨pos, hstands⟩, hkey, hkept⟩ := h.live hcap
  cases psaKeyDerivationOutputBytes_outcome env n hstands with
  | read ctx _ _ _ hop hnext _ _ =>
    rw [hop] at hnext ⊢
    exact ⟨h.setup, h.kind, h.secrets, fun _ => ⟨⟨pos + n, hnext⟩, hkey, hkept⟩⟩
  | exhausted _ _ hr =>
    rw [hr]
    exact h
  | wiped e _ hr =>
    rw [hr]
    exact hwiped

theorem KdfOperationInv.setCapacity (h : KdfOperationInv P l op) (capacity : Nat) :
    KdfOperationInv P l (psaKeyDerivationSetCapacity op capacity).2 := by
  obtain ⟨c, hle, heq⟩ := psaKeyDerivationSetCapacity_operation op capacity
  rw [heq]
  exact h.imp id fun ⟨k, hk⟩ => ⟨k, hk.setCapacity hle⟩

theorem KdfOperationInv.output (h : KdfOperationInv P l op) (env : OutputEnv) (n : Nat) :
    KdfOperationInv P l (psaKeyDerivationOutputBytes P env op n).operation := by
  rcases h with hidle | ⟨k, hk⟩
  · rw [psaKeyDerivationOutputBytes_idle hidle.1]
    exact .inl hidle
  · exact .inr ⟨k, hk.output env n⟩

theorem KdfOperationInv.input {fromKey : Bool} {r : InputResult}
    (h : KdfOperationInv P l op) (hout : InputOutcome P e.1.2.input op fromKey r)
    (habort : e.isAbort = false) (he : e.2 = .ofInput r)
    (hkey : fromKey = true → r.supplied.isSome = true →
      (r.status = .success ∨ r.status = e.1.2.input.unregister) →
      FromKeyObject op.alg e) :
    KdfOperationInv P (l ++ [e]) r.operation := by
  have hsupplied : e.2.supplied = r.supplied := by rw [he]; rfl
  have hoperation : e.2.operation = r.operation := by rw [he]; rfl
  cases hout with
  | refused hnone _ hop =>
    rw [hop]
    exact h.append habort (hsupplied.trans hnone) (hoperation.trans hop)
  | wiped _ _ hop =>
    rw [hop]
    exact .inl ⟨rfl, rfl⟩
  | taken x ctx hx hstatus hne hop hcontext hsecret =>
    obtain ⟨k, hk⟩ := h.resolve_left fun hidle => hne hidle.1
    obtain ⟨env, o, rest, hl, hok⟩ := hk.setup
    have hinputs : suppliedInputs (l ++ [e]) = (suppliedInputs l).supply (some x) := by
      rw [suppliedInputs_append, hsupplied, hx]
    rw [hop]
    refine .inr ⟨k, ⟨env, o, rest ++ [e], by rw [hl]; rfl, hok⟩, hk.kind, ?_, fun hcap => ?_⟩
    · rintro rfl
      obtain ⟨data, rfl⟩ := hsecret (of_decide_eq_true hk.kind)
      have hcount := hk.secrets rfl
      rw [hinputs]
      simp [acceptedInputs, hsupplied, hx] at hcount ⊢
      exact hcount
    · obtain ⟨⟨pos, hstands⟩, hunlocked, hkept⟩ := hk.live hcap
      have hlimit : k = .tls12Prf ∨
          pos + op.capacity ≤ k.blockLimit * k.blockSize (kdfAlgOf op.alg) := hstands.limit
      refine ⟨⟨pos, hk.kind, hstands.size, ?_, hlimit⟩, fun hout => ?_, fun y hy => ?_⟩
      · rw [hinputs]
        exact hcontext k _ pos hk.kind hstands.context
      · rcases (Bool.or_eq_true _ _).mp hout with hout | hout
        · obtain ⟨y, hy, hfrom⟩ := hunlocked hout
          exact ⟨y, List.mem_append_left _ hy, hfrom⟩
        · exact ⟨e, by simp, hkey hout (by simp [hx]) hstatus⟩
      · rcases List.mem_append.mp hy with hy | hy
        · exact hkept y hy
        · rw [List.mem_singleton.mp hy, hoperation, hop]
          exact ⟨habort, rfl, Nat.pos_of_ne_zero hcap⟩

/-! ## Runs -/

variable {tr : List KdfEvent}

theorem kdfMachine_eq {a : KdfCall × KdfEnv} {o : KdfObservation}
    {op' : PsaKeyDerivationOperation} (h : kdfMachine P op a = some (op', o)) :
    o = kdfCall P a.2 op a.1 ∧ op' = o.operation := by
  obtain ⟨rfl, rfl⟩ := Prod.mk.inj (Option.some.inj h)
  exact ⟨rfl, rfl⟩

theorem sinceSetup_append (h : e.isSetup = false) :
    sinceSetup (tr ++ [e]) = sinceSetup tr ++ [e] := by
  rw [sinceSetup, History.since_append_singleton, h]
  rfl

theorem sinceSetup_setup (h : e.isSetup = true) : sinceSetup (tr ++ [e]) = [e] := by
  rw [sinceSetup, History.since_append_singleton, h]
  rfl

theorem KdfOperationInv.setup {alg : PsaAlgorithm} {env : KdfEnv}
    (h : KdfOperationInv P (sinceSetup tr) op) :
    KdfOperationInv P
      (sinceSetup (tr ++ [((.setup alg, env), kdfCall P env op (.setup alg))]))
      (kdfCall P env op (.setup alg)).operation := by
  cases psaKeyDerivationSetup_outcome P op env.hashTrySupport alg with
  | started k capacity hok hidle hkind hsize hpos hlimit hop =>
    have hlocked : op.canOutputKey = false :=
      h.elim And.right fun ⟨k, hk⟩ => absurd hidle (alg_ne_zero hk.kind)
    have hsetup : KdfEvent.isSetup
        ((.setup alg, env), kdfCall P env op (.setup alg)) = true :=
      decide_eq_true hok
    have hoperation : (kdfCall P env op (.setup alg)).operation
        = { op with alg := alg, capacity := capacity,
                    ctx := psaKeyDerivationContextZero } := hop
    rw [sinceSetup_setup hsetup, hoperation]
    refine .inr ⟨k, ⟨env, _, [], rfl, hok⟩, hkind, fun _ => ?_, fun _ => ?_⟩
    · simp [acceptedInputs, kdfCall, KdfObservation.ofStatus, KdfInputs.empty]
    refine ⟨⟨0, hkind, hsize, ?_, ?_⟩, fun hout => ?_, fun x hx => ?_⟩
    · rw [suppliedInputs_singleton _ rfl]
      exact kdfInv_zero P k _
    · exact hlimit.imp id fun hlim => by rwa [Nat.zero_add]
    · have hout : op.canOutputKey = true := hout
      rw [hlocked] at hout
      cases hout
    rw [List.mem_singleton.mp hx]
    refine ⟨rfl, ?_⟩
    rw [hoperation]
    exact ⟨rfl, hpos⟩
  | failed hfail halg hlocked hsame =>
    have hsetup : KdfEvent.isSetup
        ((.setup alg, env), kdfCall P env op (.setup alg)) = false :=
      decide_eq_false hfail
    rw [sinceSetup_append hsetup]
    rcases h with ⟨hidle, hkey⟩ | ⟨k, hk⟩
    · exact .inl ⟨halg.trans hidle, hlocked.trans hkey⟩
    · have hop : (kdfCall P env op (.setup alg)).operation = op := hsame (alg_ne_zero hk.kind)
      rw [hop]
      exact .inr ⟨k, hk.append rfl rfl hop⟩

theorem KdfOperationInv.step {a : KdfCall × KdfEnv} {o : KdfObservation}
    {op' : PsaKeyDerivationOperation} (h : KdfOperationInv P (sinceSetup tr) op)
    (hs : kdfMachine P op a = some (op', o)) :
    KdfOperationInv P (sinceSetup (tr ++ [(a, o)])) op' := by
  obtain ⟨rfl, rfl⟩ := kdfMachine_eq hs
  obtain ⟨call, env⟩ := a
  cases call with
  | setup alg => exact h.setup
  | getCapacity =>
    rw [sinceSetup_append rfl]
    exact h.append rfl rfl rfl
  | setCapacity capacity =>
    rw [sinceSetup_append rfl]
    exact (h.setCapacity capacity).append rfl rfl rfl
  | inputBytes step data =>
    rw [sinceSetup_append rfl]
    exact h.input (psaKeyDerivationInputBytes_outcome h.supported) rfl rfl nofun
  | inputInteger step value =>
    rw [sinceSetup_append rfl]
    exact h.input psaKeyDerivationInputInteger_outcome rfl rfl nofun
  | inputKey step key =>
    rw [sinceSetup_append rfl]
    obtain ⟨hout, hslot⟩ := psaKeyDerivationInputKey_outcome P env.input step h.supported key
    exact h.input hout rfl rfl fun hstep hsome hstatus =>
      ⟨hsome, hstatus, of_decide_eq_true hstep, hslot hsome⟩
  | keyAgreement step privateKey peerKey =>
    rw [sinceSetup_append rfl]
    exact h.input (psaKeyDerivationKeyAgreement_outcome h.supported) rfl rfl
      fun hstep hsome hstatus => ⟨hsome, hstatus, of_decide_eq_true hstep⟩
  | outputBytes n =>
    rw [sinceSetup_append rfl]
    exact (h.output env.output n).append rfl rfl rfl
  | outputKey attributes customFlags customDataLength =>
    rw [sinceSetup_append rfl]
    exact (psaKeyDerivationOutputKeyCustom_keeps (fun env _ n hI => hI.output env n)
      h).append rfl rfl rfl
  | abort => exact .inl ⟨rfl, rfl⟩

theorem kdfOperationInv_run (h : Machine.Run (kdfMachine P) psaKeyDerivationOperationInit tr op) :
    KdfOperationInv P (sinceSetup tr) op :=
  h.invariant (I := fun tr op => KdfOperationInv P (sinceSetup tr) op)
    (P := fun _ => True) (.inl ⟨rfl, rfl⟩)
    (fun _ _ _ _ _ hI _ hs => hI.step hs) fun _ _ => trivial

/-! ## Output needs inputs -/

def sha256OfZeros : ByteString :=
  [0x66, 0x68, 0x7a, 0xad, 0xf8, 0x62, 0xbd, 0x77,
    0x6c, 0x8f, 0xc1, 0x8b, 0x8e, 0x9f, 0x8e, 0x20,
    0x08, 0x97, 0x14, 0x85, 0x6e, 0xe2, 0x33, 0xb3,
    0x90, 0x2a, 0x59, 0x1d, 0x0d, 0x5f, 0x29, 0x25]

def zeroCoordinatePlatform : KdfPlatform where
  sizeMax := 2 ^ 64 - 1
  sizeMax_eq := .inr rfl
  hash := fun alg m =>
    if alg = psaAlgSha256 ∧ m = List.replicate 32 0 then sha256OfZeros
    else List.replicate (psaHashLength alg) 0
  length_hash := fun alg m => by
    have hsha : sha256OfZeros.length = psaHashLength psaAlgSha256 := by decide
    split
    · next h => rw [h.1, hsha]
    · exact List.length_replicate
  aesCmac := fun _ _ => List.replicate 16 0
  length_aesCmac := fun _ _ => List.length_replicate

/-- A `PSA_KEY_TYPE_DERIVE` key: the uncompressed point with coordinates 0. -/
def ecjpakeKey : KeyObject :=
  { attr := { psaKeyAttributesInit with
      type := psaKeyTypeDerive, bits := 520,
      policy := { usage := psaKeyUsageDerive, alg := psaAlgTls12EcjpakeToPms, alg2 := 0 } }
    data := 0x04 :: List.replicate 64 0 }

def permissiveOutputEnv : OutputEnv where
  localAlloc := true
  mac := fun _ _ => .success
  hash := .success
  macAbort := .success

def permissiveKdfEnv : KdfEnv where
  hashTrySupport := fun _ => .success
  macAbort := .success
  input :=
    { localAlloc := true, calloc := true, callocPms := true, macSetup := .success,
      mac := .success, hash := .success, macAbort := .success,
      lookup := fun _ => .ok ecjpakeKey, unregister := .success,
      keyAgreement := fun _ _ _ => .ok [] }
  output := permissiveOutputEnv
  outputKey :=
    { startKeyCreation := .success,
      ecpGroup := fun _ _ => .error ⟨.errorNotSupported, by simp⟩, calloc := true,
      output := fun _ => permissiveOutputEnv, mpi := fun _ => .success,
      importKey := fun attributes _ => (.success, attributes.bits.toNat),
      finishKeyCreation := .success }

theorem KdfOperationInv.of_output (h : KdfOperationInv P l op) {env : OutputEnv} {n : Nat}
    (hok : (psaKeyDerivationOutputBytes P env op n).status = .success) :
    ∃ k, KdfActive P l k op ∧ op.capacity ≠ 0 := by
  rcases h with hidle | ⟨k, hk⟩
  · rw [psaKeyDerivationOutputBytes_idle hidle.1] at hok
    cases hok
  refine ⟨k, hk, fun hcap => ?_⟩
  obtain ⟨e, hne, heq | heq⟩ := psaKeyDerivationOutputBytes_no_capacity P env n hcap
  · rw [heq] at hok
    exact hne hok
  · rw [heq] at hok
    exact hne hok

/-- **Mandatory inputs.** When `psa_key_derivation_output_bytes` succeeds, the required inputs have
been given since the last setup, each single-use input once; for ECJPAKE-to-PMS exactly if the
caller gave one. -/
theorem output_requires_inputs {tr : List KdfEvent} {env : KdfEnv} {n : Nat}
    {o : KdfObservation}
    (h : Machine.Run (kdfMachine P) psaKeyDerivationOperationInit
      (tr ++ [((.outputBytes n, env), o)]) op)
    (hok : o.status = .success) :
    ∃ (k : Kdf) (alg : PsaAlgorithm) (setupEnv : KdfEnv) (setup : KdfObservation)
        (rest : List KdfEvent),
      sinceSetup tr = ((.setup alg, setupEnv), setup) :: rest ∧
      setup.status = .success ∧ k.Is (kdfAlgOf alg) = true ∧
      ((suppliedInputs (sinceSetup tr)).Complete k ↔
        (k ≠ .tls12EcjpakeToPms ∨ (acceptedInputs (sinceSetup tr)).length = 1)) := by
  obtain ⟨op₁, hrun, hstep⟩ := h.snoc_inv
  obtain ⟨rfl, rfl⟩ := kdfMachine_eq hstep
  have hok : (psaKeyDerivationOutputBytes P env.output op₁ n).status = .success := hok
  obtain ⟨k, hk, hcap⟩ := (kdfOperationInv_run hrun).of_output hok
  obtain ⟨setupEnv, setup, rest, hl, hsetup⟩ := hk.setup
  refine ⟨k, op₁.alg, setupEnv, setup, rest, hl, hsetup, hk.kind, ?_⟩
  by_cases hecjpake : k = .tls12EcjpakeToPms
  · have hcount := hk.secrets hecjpake
    subst hecjpake
    simp [KdfInputs.Complete, hcount]
  obtain ⟨⟨pos, hstands⟩, -, -⟩ := hk.live hcap
  refine iff_of_true ?_ (.inl hecjpake)
  cases psaKeyDerivationOutputBytes_outcome env.output n hstands with
  | read _ _ _ _ _ _ hcomplete _ => exact hcomplete hecjpake
  | exhausted _ _ hr =>
    rw [hr] at hok
    cases hok
  | wiped e hreason hr =>
    rw [hr] at hok
    exact absurd hok hreason.ne_success

/-- ECJPAKE-to-PMS with its input. -/
theorem output_requires_inputs_witness :
    let setup : KdfCall × KdfEnv := (.setup psaAlgTls12EcjpakeToPms, permissiveKdfEnv)
    let input : KdfCall × KdfEnv := (.inputBytes .secret ecjpakeKey.data, permissiveKdfEnv)
    ∃ o₁ o₂ o₃ op, Machine.Run (kdfMachine zeroCoordinatePlatform)
        psaKeyDerivationOperationInit
        ([(setup, o₁), (input, o₂)] ++ [((.outputBytes 32, permissiveKdfEnv), o₃)]) op ∧
      o₃.status = .success ∧ o₃.output = sha256OfZeros ∧
      (suppliedInputs (sinceSetup [(setup, o₁), (input, o₂)])).Complete
        .tls12EcjpakeToPms := by
  intro setup input
  have hrun : Machine.Run (kdfMachine zeroCoordinatePlatform)
      psaKeyDerivationOperationInit
      (([] ++ [(setup, _)] ++ [(input, _)]) ++ [((.outputBytes 32, permissiveKdfEnv), _)]) _ :=
    ((Machine.Run.nil.snoc rfl).snoc rfl).snoc rfl
  obtain ⟨k, alg, _, _, _, hl, _, hk, hiff⟩ := output_requires_inputs hrun (by decide)
  rw [sinceSetup_append rfl, sinceSetup_setup (by decide)] at hl
  obtain rfl : psaAlgTls12EcjpakeToPms = alg :=
    KdfCall.setup.inj (Prod.mk.inj (Prod.mk.inj (List.cons.inj hl).1).1).1
  have hecjpake : Kdf.tls12EcjpakeToPms = k := of_decide_eq_true
    ((Kdf.is_iff hk .tls12EcjpakeToPms).symm.trans (by decide))
  exact ⟨_, _, _, _, hrun, by decide, by decide, hecjpake ▸ hiff.mpr (.inr (by decide))⟩

def ecjpakeStarted : PsaKeyDerivationOperation :=
  { psaKeyDerivationOperationInit with alg := psaAlgTls12EcjpakeToPms, capacity := 32 }

/-- **Counterexample.** On every platform, 32 bytes can be read from ECJPAKE-to-PMS
right after its setup. -/
theorem ecjpake_output_without_input :
    ¬ ∃ P : KdfPlatform, ∀ tr env n o op, Machine.Run (kdfMachine P)
        psaKeyDerivationOperationInit (tr ++ [((.outputBytes n, env), o)]) op →
      o.status = .success → 0 < n →
      ∃ k : Kdf, k.Is (kdfAlgOf op.alg) = true ∧ (suppliedInputs (sinceSetup tr)).Complete k := by
  rintro ⟨P, h⟩
  have hsetup : kdfMachine P psaKeyDerivationOperationInit
      (.setup psaAlgTls12EcjpakeToPms, permissiveKdfEnv)
        = some (ecjpakeStarted, .ofStatus (.success, ecjpakeStarted)) := by rfl
  have hok : (psaKeyDerivationOutputBytes P permissiveOutputEnv ecjpakeStarted 32).status
      = .success := by rfl
  have halg : (psaKeyDerivationOutputBytes P permissiveOutputEnv ecjpakeStarted
      32).operation.alg = psaAlgTls12EcjpakeToPms := by rfl
  obtain ⟨k, hk, hcomplete⟩ := h ([] ++ [_]) permissiveKdfEnv 32 _ _
    ((Machine.Run.nil.snoc hsetup).snoc rfl) hok (by decide)
  have hk : k.Is (kdfAlgOf psaAlgTls12EcjpakeToPms) = true := halg ▸ hk
  obtain rfl : Kdf.tls12EcjpakeToPms = k := of_decide_eq_true
    ((Kdf.is_iff hk .tls12EcjpakeToPms).symm.trans (by decide))
  rw [sinceSetup_setup rfl, suppliedInputs_singleton _ rfl] at hcomplete
  cases hcomplete

/-! ## Key objects come from key objects -/

end TfPsaCrypto
