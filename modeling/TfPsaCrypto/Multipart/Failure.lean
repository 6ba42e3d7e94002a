import TfPsaCrypto.Multipart.DriverOrder

/-!
# A failed call ends the operation

After an error the operation is inactive, in the runs that avoid the paths `HashCall.Aborts`,
`XofCall.Aborts` and `MacCall.Aborts`.
-/

namespace TfPsaCrypto

open Bytes

/-! ## The calls -/

namespace HashCall

def isSetup : HashCall → Bool
  | setup _ => true
  | cloneFrom _ => true
  | _ => false

def isData : HashCall → Bool
  | update _ => true
  | finish _ => true
  | verify _ => true
  | _ => false

def Aborts (_ : PsaHashOperation) (a : HashCall × MultipartEnv) : Prop :=
  match a.1 with
  | finish hashSize => psaCryptoLocalAlloc a.2.outputCalloc hashSize = .success
  | _ => True

instance (op : PsaHashOperation) (a : HashCall × MultipartEnv) : Decidable (Aborts op a) := by
  unfold Aborts
  split <;> infer_instance

end HashCall

namespace XofCall

def isSetup : XofCall → Bool
  | setup _ => true
  | _ => false

def isData : XofCall → Bool
  | setContext _ => true
  | update _ => true
  | output _ => true
  | _ => false

def Aborts (op : PsaXofOperation) (a : XofCall × MultipartEnv) : Prop :=
  match a.1 with
  | setContext _ => op.id ≠ 0 → op.allowsContext = true ∧ op.hasContext = false ∧
      op.hasInput = false ∧ op.hasOutput = false
  | update _ => op.id ≠ 0 →
      (op.requiresContext = true → op.hasContext = true) ∧ op.hasOutput = false
  | output _ => op.id ≠ 0 → op.requiresContext = true → op.hasContext = true
  | _ => True

instance (op : PsaXofOperation) (a : XofCall × MultipartEnv) : Decidable (Aborts op a) := by
  unfold Aborts
  split <;> infer_instance

end XofCall

namespace MacCall

def isSetup : MacCall → Bool
  | signSetup _ => true
  | verifySetup _ => true
  | _ => false

def isData : MacCall → Bool
  | update _ => true
  | signFinish _ => true
  | verifyFinish _ => true
  | _ => false

/-- `psa_mac_update` can copy its input, and on an inactive operation
`psa_mac_sign_finish` its output buffer. -/
def Aborts (op : PsaMacOperation) (a : MacCall × MultipartEnv) : Prop :=
  match a.1 with
  | update input => op.id ≠ 0 → psaCryptoLocalAlloc a.2.inputCalloc input.length = .success
  | signFinish macSize => op.id = 0 → psaCryptoLocalAlloc a.2.outputCalloc macSize = .success
  | _ => True

instance (op : PsaMacOperation) (a : MacCall × MultipartEnv) : Decidable (Aborts op a) := by
  unfold Aborts
  split <;> infer_instance

end MacCall

namespace CipherCall

def isSetup : CipherCall → Bool
  | encryptSetup _ => true
  | decryptSetup _ => true
  | _ => false

def isData : CipherCall → Bool
  | generateIv _ _ => true
  | setIv _ => true
  | update _ _ => true
  | finish _ => true
  | _ => false

end CipherCall

/-! ## Runs -/

section Runs

variable {σ χ α : Type*}

/-- A data call that fails leaves the operation inactive; until a start every data call fails with
`PSA_ERROR_BAD_STATE` and reaches no driver. -/
def FailureEnds (M : Machine.StepFn σ (α × MultipartEnv) (MultipartObservation χ))
    (init : σ) (id : σ → Nat) (isSetup isData : α → Bool) : Prop :=
  ∀ tr a o op, Machine.Run M init (tr ++ [(a, o)]) op → isData a.1 = true →
    o.status ≠ .success →
    id op = 0 ∧
    ∀ tr' b o' op', Machine.Run M op (tr' ++ [(b, o')]) op' →
      (∀ e ∈ tr', isSetup e.1.1 = false) → isData b.1 = true →
      o'.status = .errorBadState ∧ o'.log = []

def EndsOnFailure (id : σ → Nat) (r : MultipartResult σ χ) : Prop :=
  r.status ≠ .success → id r.operation = 0

def Refuses (r : MultipartResult σ χ) : Prop := r.status = .errorBadState ∧ r.log = []

variable {call : MultipartEnv → σ → α → MultipartResult σ χ} {id : σ → Nat}
  {init op op' : σ} {isSetup isData : α → Bool}
  {C : σ → α × MultipartEnv → Prop} [∀ s a, Decidable (C s a)]

theorem run_stays_inactive
    (hstay : ∀ op env a, id op = 0 → isSetup a = false → id (call env op a).operation = 0)
    {tr : List ((α × MultipartEnv) × MultipartObservation χ)}
    (h : Machine.Run (Machine.restrict (multipartMachine call) C) op tr op')
    (hid : id op = 0) (hsetup : ∀ e ∈ tr, isSetup e.1.1 = false) : id op' = 0 := by
  refine Machine.Run.invariant (I := fun _ op => id op = 0)
    (P := fun e => isSetup e.1.1 = false) hid ?_ h hsetup
  intro _ op a op' o hid hnot hstep
  obtain ⟨_, hstep⟩ := Machine.restrict_eq_some.mp hstep
  obtain ⟨rfl, _⟩ := multipartMachine_eq_some.mp hstep
  exact hstay op a.2 a.1 hid hnot

/-- The three facts about single calls that make a failure end the operation, where `I` is
an invariant of the operation. -/
theorem failureEnds_of_calls {I : σ → Prop} (hinit : I init)
    (hstep : ∀ op env a, I op → I (call env op a).operation)
    (hfail : ∀ op env a, I op → C op (a, env) → isData a = true → EndsOnFailure id (call env op a))
    (hrefused : ∀ op env a, id op = 0 → C op (a, env) → isData a = true → Refuses (call env op a))
    (hstay : ∀ op env a, id op = 0 → isSetup a = false → id (call env op a).operation = 0) :
    FailureEnds (Machine.restrict (multipartMachine call) C) init id isSetup isData := by
  intro tr a o op h hdata hne
  obtain ⟨op₁, hpre, hlast⟩ := h.snoc_inv
  obtain ⟨hC, hlast⟩ := Machine.restrict_eq_some.mp hlast
  obtain ⟨rfl, hstatus, _⟩ := multipartMachine_eq_some.mp hlast
  have hI : I op₁ := by
    refine Machine.Run.state_invariant hinit ?_ hpre.of_restrict
    intro op a op' o hop hs
    obtain ⟨rfl, _⟩ := multipartMachine_eq_some.mp hs
    exact hstep op a.2 a.1 hop
  have hid := hfail op₁ a.2 a.1 hI hC hdata (hstatus ▸ hne)
  refine ⟨hid, ?_⟩
  intro tr' b o' op' h' hsetup hb
  obtain ⟨op₂, hpre', hlast'⟩ := h'.snoc_inv
  have hid₂ := run_stays_inactive hstay hpre' hid hsetup
  obtain ⟨hC', hlast'⟩ := Machine.restrict_eq_some.mp hlast'
  obtain ⟨_, hstatus', hlog', _⟩ := multipartMachine_eq_some.mp hlast'
  obtain ⟨hbad, hnone⟩ := hrefused op₂ b.2 b.1 hid₂ hC' hb
  exact ⟨hstatus'.trans hbad, hlog'.trans hnone⟩

theorem psaCryptoLocalAlloc_of_ne {calloc : Bool} {length : Nat}
    (h : psaCryptoLocalAlloc calloc length ≠ .success) :
    psaCryptoLocalAlloc calloc length = .errorInsufficientMemory := by
  unfold psaCryptoLocalAlloc at h ⊢
  split at h
  · simp at h
  next hlength =>
  split at h
  · simp at h
  next hcalloc => rw [if_neg hlength, if_neg hcalloc]

theorem endsOnFailure_success {log : List (MultipartEvent χ)} :
    EndsOnFailure id { status := .success, operation := op, log := log } :=
  fun hne => absurd rfl hne

theorem endsOnFailure_of_id {r : MultipartResult σ χ} (h : id r.operation = 0) :
    EndsOnFailure id r :=
  fun _ => h

theorem endsOnFailure_exit {abort : σ → MultipartResult σ χ}
    (habort : ∀ op, id (abort op).operation = 0) (op : σ)
    (log : List (MultipartEvent χ)) (status : PsaStatus) :
    EndsOnFailure id (multipartExit abort op log status) := by
  unfold multipartExit
  split
  · exact endsOnFailure_of_id (habort op)
  · next hok =>
    rw [not_not] at hok
    exact fun hne => absurd hok hne

end Runs

/-! ## Hash -/

section Hash

variable {env : MultipartEnv} {op : PsaHashOperation}

theorem psaHashAbort_id (env : MultipartEnv) (op : PsaHashOperation) :
    (psaHashAbort env op).operation.id = 0 := by
  unfold psaHashAbort
  split
  · assumption
  · rfl

theorem psaHashFinishInternal_id (hashSize : Nat) :
    (psaHashFinishInternal env op hashSize).operation.id = 0 := by
  unfold psaHashFinishInternal
  split
  · assumption
  · exact psaHashAbort_id env op

theorem hashCall_endsOnFailure {call : HashCall} (haborts : HashCall.Aborts op (call, env))
    (hdata : call.isData = true) : EndsOnFailure PsaHashOperation.id (hashCall env op call) := by
  cases call with
  | update input =>
    simp only [hashCall, psaHashUpdate]
    split
    · exact endsOnFailure_exit (psaHashAbort_id env) _ _ _
    split
    · exact endsOnFailure_success
    split
    · exact endsOnFailure_exit (psaHashAbort_id env) _ _ _
    · exact endsOnFailure_exit (psaHashAbort_id env) _ _ _
  | finish hashSize =>
    have halloc : psaCryptoLocalAlloc env.outputCalloc hashSize = .success := haborts
    simp only [hashCall, psaHashFinish, halloc, ne_eq, not_true_eq_false, if_false]
    exact endsOnFailure_of_id (psaHashFinishInternal_id hashSize)
  | verify hash =>
    simp only [hashCall, psaHashVerify]
    split
    · exact endsOnFailure_exit (psaHashAbort_id env) _ _ _
    split
    · exact endsOnFailure_exit (psaHashAbort_id env) _ _ _
    split
    · exact endsOnFailure_exit (psaHashAbort_id env) _ _ _
    split
    · exact endsOnFailure_exit (psaHashAbort_id env) _ _ _
    · exact endsOnFailure_exit (psaHashAbort_id env) _ _ _
  | _ => simp [HashCall.isData] at hdata

theorem hashCall_refuses {call : HashCall} (hid : op.id = 0)
    (haborts : HashCall.Aborts op (call, env)) (hdata : call.isData = true) :
    Refuses (hashCall env op call) := by
  cases call with
  | update input => simp [Refuses, hashCall, psaHashUpdate, hid, multipartExit, psaHashAbort]
  | finish hashSize =>
    have halloc : psaCryptoLocalAlloc env.outputCalloc hashSize = .success := haborts
    simp [Refuses, hashCall, psaHashFinish, halloc, psaHashFinishInternal, hid]
  | verify hash =>
    simp [Refuses, hashCall, psaHashVerify, psaHashFinishInternal, hid, multipartExit, psaHashAbort]
  | _ => simp [HashCall.isData] at hdata

theorem hashCall_stays {call : HashCall} (hid : op.id = 0) (hsetup : call.isSetup = false) :
    (hashCall env op call).operation.id = 0 := by
  cases call with
  | update input => simp [hashCall, psaHashUpdate, hid, multipartExit, psaHashAbort]
  | finish hashSize =>
    simp only [hashCall, psaHashFinish]
    split
    · exact hid
    · exact psaHashFinishInternal_id hashSize
  | verify hash =>
    simp [hashCall, psaHashVerify, psaHashFinishInternal, hid, multipartExit, psaHashAbort]
  | cloneTo target => exact hid
  | abort => exact psaHashAbort_id env op
  | setup alg => simp [HashCall.isSetup] at hsetup
  | cloneFrom source => simp [HashCall.isSetup] at hsetup

theorem hashCall_not_aborts {call : HashCall} (h : ¬ HashCall.Aborts op (call, env)) :
    (hashCall env op call).status = .errorInsufficientMemory ∧
      (hashCall env op call).operation = op := by
  cases call with
  | finish hashSize =>
    have halloc : psaCryptoLocalAlloc env.outputCalloc hashSize ≠ .success := h
    simp [hashCall, psaHashFinish, psaCryptoLocalAlloc_of_ne halloc]
  | _ => exact absurd trivial h

end Hash

/-! ## XOF -/

section Xof

variable {env : MultipartEnv} {op : PsaXofOperation}

def XofActive (op : PsaXofOperation) : Prop := op.id ≠ 0 → op.active = true

theorem psaXofAbort_id (env : MultipartEnv) (op : PsaXofOperation) :
    (psaXofAbort env op).operation.id = 0 := by
  unfold psaXofAbort
  split
  · assumption
  · rfl

theorem xofActive_of_id (h : op.id = 0) : XofActive op := fun hne => absurd h hne

theorem xofActive_exit (h : XofActive op) (log : List (MultipartEvent XofDriverCall))
    (status : PsaStatus) :
    XofActive (multipartExit (psaXofAbort env) op log status).operation := by
  unfold multipartExit
  split
  · exact xofActive_of_id (psaXofAbort_id env op)
  · exact h

theorem xofCall_active (h : XofActive op) (call : XofCall) :
    XofActive (xofCall env op call).operation := by
  cases call with
  | setup alg =>
    simp only [xofCall, psaXofSetup]
    split
    · exact xofActive_exit h _ _
    split
    · exact xofActive_exit h _ _
    split
    · exact fun _ => rfl
    · next hid _ hne =>
      rw [not_not] at hid
      refine xofActive_exit (xofActive_of_id ?_) _ _
      exact (MultipartEnv.setupId_of_failure hne op.id).trans hid
  | setContext context =>
    simp only [xofCall, psaXofSetContext]
    split
    · exact h
    split
    · refine xofActive_exit ?_ _ _
      exact h
    · refine xofActive_exit ?_ _ _
      exact h
  | update input =>
    simp only [xofCall, psaXofUpdate]
    split
    · exact h
    split
    · exact h
    split
    · refine xofActive_exit ?_ _ _
      exact h
    · refine xofActive_exit ?_ _ _
      exact h
  | output outputLength =>
    simp only [xofCall, psaXofOutput]
    split
    · exact h
    split
    · exact h
    split
    · refine xofActive_exit ?_ _ _
      exact h
    · refine xofActive_exit ?_ _ _
      exact h
  | abort => exact xofActive_of_id (psaXofAbort_id env op)

theorem xofCall_endsOnFailure {call : XofCall} (hactive : XofActive op)
    (haborts : XofCall.Aborts op (call, env)) (hdata : call.isData = true) :
    EndsOnFailure PsaXofOperation.id (xofCall env op call) := by
  by_cases hid : op.id = 0
  · refine endsOnFailure_of_id ?_
    cases call with
    | setup alg => simp [XofCall.isData] at hdata
    | setContext context => simp [xofCall, psaXofSetContext, hid]
    | update input => simp [xofCall, psaXofUpdate, hid]
    | output outputLength => simp [xofCall, psaXofOutput, hid]
    | abort => exact psaXofAbort_id env op
  have hact := hactive hid
  cases call with
  | setContext context =>
    obtain ⟨hallows, hcontext, hin, hout⟩ : op.allowsContext = true ∧
      op.hasContext = false ∧ op.hasInput = false ∧ op.hasOutput = false := haborts hid
    simp only [xofCall, psaXofSetContext]
    rw [if_neg (by simp [hid, hact, hallows, hcontext, hin, hout])]
    split
    · exact endsOnFailure_exit (psaXofAbort_id env) _ _ _
    · exact endsOnFailure_exit (psaXofAbort_id env) _ _ _
  | update input =>
    obtain ⟨hcontext, hout⟩ : (op.requiresContext = true → op.hasContext = true) ∧
      op.hasOutput = false := haborts hid
    simp only [xofCall, psaXofUpdate]
    rw [if_neg (by grind)]
    split
    · exact endsOnFailure_success
    split
    · exact endsOnFailure_exit (psaXofAbort_id env) _ _ _
    · exact endsOnFailure_exit (psaXofAbort_id env) _ _ _
  | output outputLength =>
    have hcontext : op.requiresContext = true → op.hasContext = true := haborts hid
    simp only [xofCall, psaXofOutput]
    rw [if_neg (by grind)]
    split
    · exact endsOnFailure_success
    split
    · exact endsOnFailure_exit (psaXofAbort_id env) _ _ _
    · exact endsOnFailure_exit (psaXofAbort_id env) _ _ _
  | _ => simp [XofCall.isData] at hdata

theorem xofCall_refuses {call : XofCall} (hid : op.id = 0) (hdata : call.isData = true) :
    Refuses (xofCall env op call) := by
  cases call with
  | setContext context => simp [Refuses, xofCall, psaXofSetContext, hid]
  | update input => simp [Refuses, xofCall, psaXofUpdate, hid]
  | output outputLength => simp [Refuses, xofCall, psaXofOutput, hid]
  | _ => simp [XofCall.isData] at hdata

theorem xofCall_stays {call : XofCall} (hid : op.id = 0) (hsetup : call.isSetup = false) :
    (xofCall env op call).operation.id = 0 := by
  cases call with
  | setup alg => simp [XofCall.isSetup] at hsetup
  | setContext context => simp [xofCall, psaXofSetContext, hid]
  | update input => simp [xofCall, psaXofUpdate, hid]
  | output outputLength => simp [xofCall, psaXofOutput, hid]
  | abort => exact psaXofAbort_id env op

theorem xofCall_not_aborts {call : XofCall} (h : ¬ XofCall.Aborts op (call, env)) :
    (xofCall env op call).status = .errorBadState ∧ (xofCall env op call).operation = op ∧
      op.id ≠ 0 := by
  cases call with
  | setContext context =>
    obtain ⟨hid, hguard⟩ := Classical.not_imp.mp h
    simp only [xofCall, psaXofSetContext]
    rw [if_pos (by grind)]
    exact ⟨rfl, rfl, hid⟩
  | update input =>
    obtain ⟨hid, hguard⟩ := Classical.not_imp.mp h
    simp only [xofCall, psaXofUpdate]
    rw [if_pos (by grind)]
    exact ⟨rfl, rfl, hid⟩
  | output outputLength =>
    obtain ⟨hid, hguard⟩ := Classical.not_imp.mp h
    simp only [xofCall, psaXofOutput]
    rw [if_pos (by grind)]
    exact ⟨rfl, rfl, hid⟩
  | _ => exact absurd trivial h

end Xof

/-! ## MAC -/

section Mac

variable {env : MultipartEnv} {op : PsaMacOperation}

theorem psaMacAbort_id (env : MultipartEnv) (op : PsaMacOperation) :
    (psaMacAbort env op).operation.id = 0 := by
  unfold psaMacAbort
  split
  · assumption
  · rfl

theorem psaMacSignFinish_id (macSize : Nat) :
    (psaMacSignFinish env op macSize).operation.id = 0 := by
  simp only [psaMacSignFinish, apply_ite MultipartResult.operation,
    apply_ite PsaMacOperation.id, psaMacFinishExit, psaMacAbort_id, ite_self]

theorem psaMacVerifyFinish_id (mac : ByteString) :
    (psaMacVerifyFinish env op mac).operation.id = 0 := by
  simp only [psaMacVerifyFinish, apply_ite MultipartResult.operation, psaMacFinishExit,
    psaMacAbort_id, ite_self]

theorem macCall_endsOnFailure {call : MacCall} (haborts : MacCall.Aborts op (call, env))
    (hdata : call.isData = true) : EndsOnFailure PsaMacOperation.id (macCall env op call) := by
  cases call with
  | update input =>
    simp only [macCall, psaMacUpdate]
    split
    · next hid => exact endsOnFailure_of_id hid
    next hid =>
    have halloc : psaCryptoLocalAlloc env.inputCalloc input.length = .success := haborts hid
    split
    · exact endsOnFailure_success
    · rw [if_neg (not_not.mpr halloc)]
      exact endsOnFailure_exit (psaMacAbort_id env) _ _ _
  | signFinish macSize => exact endsOnFailure_of_id (psaMacSignFinish_id macSize)
  | verifyFinish mac => exact endsOnFailure_of_id (psaMacVerifyFinish_id mac)
  | _ => simp [MacCall.isData] at hdata

theorem macCall_refuses {call : MacCall} (hid : op.id = 0)
    (haborts : MacCall.Aborts op (call, env)) (hdata : call.isData = true) :
    Refuses (macCall env op call) := by
  cases call with
  | update input => simp [Refuses, macCall, psaMacUpdate, hid]
  | signFinish macSize =>
    have halloc : psaCryptoLocalAlloc env.outputCalloc macSize = .success := haborts hid
    simp [Refuses, macCall, psaMacSignFinish, halloc, hid, psaMacFinishExit, psaMacAbort]
  | verifyFinish mac =>
    simp [Refuses, macCall, psaMacVerifyFinish, hid, psaMacFinishExit, psaMacAbort]
  | _ => simp [MacCall.isData] at hdata

theorem macCall_stays {call : MacCall} (hid : op.id = 0) (hsetup : call.isSetup = false) :
    (macCall env op call).operation.id = 0 := by
  cases call with
  | signSetup alg => simp [MacCall.isSetup] at hsetup
  | verifySetup alg => simp [MacCall.isSetup] at hsetup
  | update input => simp [macCall, psaMacUpdate, hid]
  | signFinish macSize => exact psaMacSignFinish_id macSize
  | verifyFinish mac => exact psaMacVerifyFinish_id mac
  | abort => exact psaMacAbort_id env op

theorem macCall_not_aborts {call : MacCall} (h : ¬ MacCall.Aborts op (call, env)) :
    (macCall env op call).status = .errorInsufficientMemory ∧
      (macCall env op call).operation.id = op.id := by
  cases call with
  | update input =>
    obtain ⟨hid, halloc⟩ := Classical.not_imp.mp h
    have hlength : input.length ≠ 0 := by
      intro hzero
      simp [psaCryptoLocalAlloc, hzero] at halloc
    simp [macCall, psaMacUpdate, hid, List.ne_nil_of_length_pos (Nat.pos_of_ne_zero hlength),
      psaCryptoLocalAlloc_of_ne halloc]
  | signFinish macSize =>
    obtain ⟨hid, halloc⟩ := Classical.not_imp.mp h
    simp [macCall, psaMacSignFinish, psaCryptoLocalAlloc_of_ne halloc, hid,
      psaMacFinishExit, psaMacAbort]
  | _ => exact absurd trivial h

end Mac

/-! ## Cipher -/

section Cipher

variable {env : MultipartEnv} {op : PsaCipherOperation}

theorem psaCipherAbort_id (env : MultipartEnv) (op : PsaCipherOperation) :
    (psaCipherAbort env op).operation.id = 0 := by
  unfold psaCipherAbort
  split
  · assumption
  · rfl

theorem endsOnFailure_ivExit (log : List (MultipartEvent CipherDriverCall))
    (status : PsaStatus) :
    EndsOnFailure PsaCipherOperation.id (psaCipherIvExit env op log status) := by
  unfold psaCipherIvExit
  split
  · next hok => exact fun hne => absurd hok hne
  · exact endsOnFailure_exit (psaCipherAbort_id env) _ _ _

theorem psaCipherFinish_id (outputSize : Nat) :
    (psaCipherFinish env op outputSize).operation.id = 0 := by
  simp only [psaCipherFinish, apply_ite MultipartResult.operation, psaCipherFinishExit,
    psaCipherAbort_id, ite_self]

theorem cipherCall_endsOnFailure {call : CipherCall} (hdata : call.isData = true) :
    EndsOnFailure PsaCipherOperation.id (cipherCall env op call) := by
  cases call with
  | generateIv ivSize randomIv =>
    simp only [cipherCall, psaCipherGenerateIv]
    repeat' split
    all_goals exact endsOnFailure_ivExit _ _
  | setIv iv =>
    simp only [cipherCall, psaCipherSetIv]
    repeat' split
    all_goals exact endsOnFailure_ivExit _ _
  | update input outputSize =>
    simp only [cipherCall, psaCipherUpdate]
    repeat' split
    all_goals exact endsOnFailure_exit (psaCipherAbort_id env) _ _ _
  | finish outputSize => exact endsOnFailure_of_id (psaCipherFinish_id outputSize)
  | _ => simp [CipherCall.isData] at hdata

theorem cipherCall_refuses {call : CipherCall} (hid : op.id = 0)
    (hdata : call.isData = true) :
    Refuses (cipherCall env op call) ∧ (cipherCall env op call).operation = op := by
  cases call with
  | generateIv ivSize randomIv =>
    simp [Refuses, cipherCall, psaCipherGenerateIv, hid, psaCipherIvExit, multipartExit,
      psaCipherAbort]
  | setIv iv =>
    simp [Refuses, cipherCall, psaCipherSetIv, hid, psaCipherIvExit, multipartExit, psaCipherAbort]
  | update input outputSize =>
    simp [Refuses, cipherCall, psaCipherUpdate, hid, multipartExit, psaCipherAbort]
  | finish outputSize =>
    simp [Refuses, cipherCall, psaCipherFinish, hid, psaCipherFinishExit, psaCipherAbort]
  | _ => simp [CipherCall.isData] at hdata

theorem cipherCall_stays {call : CipherCall} (hid : op.id = 0)
    (hsetup : call.isSetup = false) : (cipherCall env op call).operation.id = 0 := by
  by_cases hdata : call.isData = true
  · rw [(cipherCall_refuses hid hdata).2]
    exact hid
  · cases call with
    | abort => exact psaCipherAbort_id env op
    | _ => simp_all [CipherCall.isSetup, CipherCall.isData]

end Cipher

/-- **A failed call ends the operation**, in every run of hash, XOF, MAC and cipher operations whose
calls are `Aborts`. Another call that fails leaves an active operation active, or hides that it is
inactive. -/
theorem failed_call_ends_operation (env : MultipartEnv) :
    FailureEnds (Machine.restrict (multipartMachine hashCall) HashCall.Aborts) .init
      PsaHashOperation.id HashCall.isSetup HashCall.isData ∧
    FailureEnds (Machine.restrict (multipartMachine xofCall) XofCall.Aborts) .init
      PsaXofOperation.id XofCall.isSetup XofCall.isData ∧
    FailureEnds (Machine.restrict (multipartMachine macCall) MacCall.Aborts) .init
      PsaMacOperation.id MacCall.isSetup MacCall.isData ∧
    FailureEnds (Machine.restrict (multipartMachine cipherCall) fun _ _ => True) .init
      PsaCipherOperation.id CipherCall.isSetup CipherCall.isData ∧
    (∀ op call, ¬ HashCall.Aborts op (call, env) →
      (hashCall env op call).status = .errorInsufficientMemory ∧
        (hashCall env op call).operation = op) ∧
    (∀ op call, ¬ XofCall.Aborts op (call, env) →
      (xofCall env op call).status = .errorBadState ∧
        (xofCall env op call).operation = op ∧ op.id ≠ 0) ∧
    (∀ op call, ¬ MacCall.Aborts op (call, env) →
      (macCall env op call).status = .errorInsufficientMemory ∧
        (macCall env op call).operation.id = op.id) := by
  refine ⟨?_, ?_, ?_, ?_, fun _ _ h => hashCall_not_aborts h,
    fun _ _ h => xofCall_not_aborts h, fun _ _ h => macCall_not_aborts h⟩
  · exact failureEnds_of_calls (I := fun _ => True) trivial (fun _ _ _ _ => trivial)
      (fun _ _ _ _ hC hd => hashCall_endsOnFailure hC hd)
      (fun _ _ _ hid hC hd => hashCall_refuses hid hC hd)
      fun _ _ _ hid hs => hashCall_stays hid hs
  · exact failureEnds_of_calls (I := XofActive) (fun hne => absurd rfl hne)
      (fun _ _ call h => xofCall_active h call)
      (fun _ _ _ hI hC hd => xofCall_endsOnFailure hI hC hd)
      (fun _ _ _ hid _ hd => xofCall_refuses hid hd)
      fun _ _ _ hid hs => xofCall_stays hid hs
  · exact failureEnds_of_calls (I := fun _ => True) trivial (fun _ _ _ _ => trivial)
      (fun _ _ _ _ hC hd => macCall_endsOnFailure hC hd)
      (fun _ _ _ hid hC hd => macCall_refuses hid hC hd)
      fun _ _ _ hid hs => macCall_stays hid hs
  · exact failureEnds_of_calls (I := fun _ => True) trivial (fun _ _ _ _ => trivial)
      (fun _ _ _ _ _ hd => cipherCall_endsOnFailure hd)
      (fun _ _ _ hid _ hd => (cipherCall_refuses hid hd).1)
      fun _ _ _ hid hs => cipherCall_stays hid hs

def cmacSignSetup : MacCall := .signSetup 0x03c00200

/-- A MAC that does not fit in the output buffer ends the operation: the data that follows
is refused. -/
theorem failed_call_ends_operation_short_buffer :
    ∃ tr a o b o' op',
      Machine.Run (Machine.restrict (multipartMachine macCall) MacCall.Aborts) .init
        (tr ++ [(a, o)]) .init ∧
      a = (.signFinish 4, aesEnv) ∧ o.status = .errorBufferTooSmall ∧
      Machine.Run (Machine.restrict (multipartMachine macCall) MacCall.Aborts) .init
        ([] ++ [(b, o')]) op' ∧
      b = (.update [1], aesEnv) ∧ o'.status = .errorBadState ∧ o'.log = [] := by
  have hfinish : Machine.Run (Machine.restrict (multipartMachine macCall) MacCall.Aborts)
      .init ([] ++ [((cmacSignSetup, aesEnv), _)] ++ [((.signFinish 4, aesEnv), _)]) .init :=
    (Machine.Run.nil.snoc rfl).snoc rfl
  have hupdate : Machine.Run (Machine.restrict (multipartMachine macCall) MacCall.Aborts)
      .init ([] ++ [((.update [1], aesEnv), _)]) .init := Machine.Run.nil.snoc rfl
  obtain ⟨_, _, hmac, _⟩ := failed_call_ends_operation aesEnv
  obtain ⟨_, hlater⟩ := hmac _ _ _ _ hfinish rfl (by decide)
  obtain ⟨hbad, hnone⟩ := hlater _ _ _ _ hupdate (by simp) rfl
  exact ⟨_, _, _, _, _, _, hfinish, rfl, rfl, hupdate, rfl, hbad, hnone⟩

/-- **Counterexample.** A `psa_mac_update` that cannot copy its input drops the data; the
`psa_mac_sign_finish` that follows returns a MAC. -/
theorem mac_active_after_failed_update :
    ¬ FailureEnds (multipartMachine macCall) .init PsaMacOperation.id MacCall.isSetup
      MacCall.isData := by
  intro h
  have hupdate : Machine.Run (multipartMachine macCall) .init
      ([] ++ [((cmacSignSetup, aesEnv), _)] ++
        [((.update [1], { aesEnv with inputCalloc := false }), _)])
      { id := 1, macSize := 16, isSign := true } :=
    (Machine.Run.nil.snoc rfl).snoc rfl
  have hfinish : Machine.Run (multipartMachine macCall)
      { id := 1, macSize := 16, isSign := true }
      ([] ++ [((.signFinish 16, aesEnv), _)]) .init := Machine.Run.nil.snoc rfl
  obtain ⟨_, hlater⟩ := h _ _ _ _ hupdate rfl (by decide)
  obtain ⟨hbad, _⟩ := hlater _ _ _ _ hfinish (by simp) rfl
  exact absurd hbad (by decide)

end TfPsaCrypto
