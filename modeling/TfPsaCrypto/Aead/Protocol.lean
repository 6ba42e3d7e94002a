import TfPsaCrypto.Aead.Operation
import TfPsaCrypto.Library.History

/-!
# The AEAD driver protocol

`DriverRule` says when a driver call is in order; `ActiveInv` connects the fields of an active
operation to the driver calls.
-/

namespace TfPsaCrypto

variable {κ : Type*}

/-! ## The rules -/

def DriverCall.isSetup : DriverCall → Bool
  | .setup _ _ => true
  | _ => false

def DriverCall.isSetNonce : DriverCall → Bool
  | .setNonce _ => true
  | _ => false

def DriverCall.isSetLengths : DriverCall → Bool
  | .setLengths _ _ => true
  | _ => false

def DriverCall.adLength : DriverCall → Nat
  | .updateAd input => input.length
  | _ => 0

def DriverCall.bodyLength : DriverCall → Nat
  | .update input => input.length
  | _ => 0

def DriverCall.isUpdateAd : DriverCall → Bool
  | .updateAd _ => true
  | _ => false

def DriverCall.isUpdate : DriverCall → Bool
  | .update _ => true
  | _ => false

def session (log : List DriverEvent) : List DriverEvent :=
  History.since (fun e => e.call.isSetup) log

def NonceGiven (s : List DriverEvent) : Prop :=
  ∃ e ∈ s, e.call.isSetNonce = true ∧ e.status = .success

def Declared (s : List DriverEvent) (a p : Nat) : Prop :=
  { call := .setLengths a p, status := .success } ∈ s

def adBytes (s : List DriverEvent) : Nat := (s.map fun e => e.call.adLength).sum

def bodyBytes (s : List DriverEvent) : Nat := (s.map fun e => e.call.bodyLength).sum

def SetUpFor (encrypt : Bool) (s : List DriverEvent) : Prop :=
  ∃ alg, { call := .setup encrypt alg, status := .success } ∈ s.head?

def UsesCcm (s : List DriverEvent) : Prop :=
  ∃ encrypt alg, { call := .setup encrypt alg, status := .success } ∈ s.head? ∧
    psaAeadGetBaseAlgorithm alg = psaAlgCcm

/-- When a driver call is in order after the calls `s` of the session. -/
def DriverRule (s : List DriverEvent) (e : DriverEvent) : Prop :=
  match e.call with
  | .setup _ _ => True
  | .setNonce _ => ∀ f ∈ s, f.call.isSetNonce = false
  | .setLengths _ _ => ∀ f ∈ s, f.call.isSetLengths = false ∧
      f.call.isUpdateAd = false ∧ f.call.isUpdate = false
  | .updateAd input => NonceGiven s ∧ (∀ f ∈ s, f.call.isUpdate = false) ∧
      (∀ a p, Declared s a p → adBytes s + input.length ≤ a) ∧
      (UsesCcm s → ∃ a p, Declared s a p)
  | .update input => NonceGiven s ∧
      (∀ a p, Declared s a p → adBytes s = a ∧ bodyBytes s + input.length ≤ p) ∧
      (UsesCcm s → ∃ a p, Declared s a p)
  | .finish => SetUpFor true s ∧ ∀ a p, Declared s a p → adBytes s = a ∧ bodyBytes s = p
  | .verify _ => SetUpFor false s ∧ ∀ a p, Declared s a p → adBytes s = a ∧ bodyBytes s = p
  | .abort => True

def InOrder (log : List DriverEvent) : Prop :=
  History.Each (fun past e => DriverRule (session past) e) log

/-! ## The invariant -/

variable {a p : Nat}

/-- The flags and counters of an active operation against the calls `s` of its
session. -/
structure ActiveInv (op : PsaAeadOperation κ) (s : List DriverEvent) : Prop where
  setup : ∃ alg, s.head? = some { call := .setup op.isEncrypt alg, status := .success } ∧
    op.alg = psaAeadGetBaseAlgorithm alg
  nonce : op.nonceSet = true → NonceGiven s
  noNonce : op.nonceSet = false → ∀ f ∈ s, f.call.isSetNonce = false
  lengths : op.lengthsSet = true → ∃ a p,
    (∀ a' p', Declared s a' p' ↔ a' = a ∧ p' = p) ∧
    adBytes s + op.adRemaining = a ∧ bodyBytes s + op.bodyRemaining = p
  noLengths : op.lengthsSet = false → ∀ f ∈ s, f.call.isSetLengths = false
  noAd : op.adStarted = false → ∀ f ∈ s, f.call.isUpdateAd = false
  noBody : op.bodyStarted = false → ∀ f ∈ s, f.call.isUpdate = false

def InactiveInv (op : PsaAeadOperation κ) [Zero κ] (log : List DriverEvent) : Prop :=
  ∃ ctx, op = .init ctx ∧ (ctx = 0 ∨ log = [])

def AeadInv [Zero κ] (log : List DriverEvent) (op : PsaAeadOperation κ) : Prop :=
  InOrder log ∧ (op.id = 0 ∧ InactiveInv op log ∨ op.id ≠ 0 ∧ ActiveInv op (session log))

section Session

variable {log s : List DriverEvent} {e : DriverEvent}

theorem session_append (h : e.call.isSetup = false) :
    session (log ++ [e]) = session log ++ [e] := by
  rw [session, History.since_append_singleton, if_neg (by simp [h])]
  rfl

theorem session_append_setup (h : e.call.isSetup = true) :
    session (log ++ [e]) = [e] := by
  rw [session, History.since_append_singleton, if_pos h]

theorem inOrder_append (h : InOrder log) (he : DriverRule (session log) e) :
    InOrder (log ++ [e]) :=
  History.each_append_singleton.mpr ⟨h, he⟩

@[simp] theorem adBytes_append : adBytes (s ++ [e]) = adBytes s + e.call.adLength := by
  simp [adBytes]

@[simp] theorem bodyBytes_append :
    bodyBytes (s ++ [e]) = bodyBytes s + e.call.bodyLength := by
  simp [bodyBytes]

theorem adBytes_eq_zero (h : ∀ f ∈ s, f.call.isUpdateAd = false) : adBytes s = 0 := by
  induction s with
  | nil => rfl
  | cons f rest ih =>
    obtain ⟨hf, hrest⟩ := List.forall_mem_cons.mp h
    rw [adBytes, List.map_cons, List.sum_cons, ← adBytes, ih hrest]
    cases hcall : f.call <;> simp_all [DriverCall.adLength, DriverCall.isUpdateAd]

theorem bodyBytes_eq_zero (h : ∀ f ∈ s, f.call.isUpdate = false) :
    bodyBytes s = 0 := by
  induction s with
  | nil => rfl
  | cons f rest ih =>
    obtain ⟨hf, hrest⟩ := List.forall_mem_cons.mp h
    rw [bodyBytes, List.map_cons, List.sum_cons, ← bodyBytes, ih hrest]
    cases hcall : f.call <;> simp_all [DriverCall.bodyLength, DriverCall.isUpdate]

theorem NonceGiven.append (h : NonceGiven s) : NonceGiven (s ++ [e]) := by
  obtain ⟨f, hf, hcall⟩ := h
  exact ⟨f, List.mem_append_left _ hf, hcall⟩

theorem declared_append :
    Declared (s ++ [e]) a p ↔
      Declared s a p ∨ e = { call := .setLengths a p, status := .success } := by
  simp [Declared, eq_comm]

theorem declared_append_of_not (h : e.call.isSetLengths = false) :
    Declared (s ++ [e]) a p ↔ Declared s a p := by
  rw [declared_append, or_iff_left]
  rintro rfl
  simp [DriverCall.isSetLengths] at h

theorem not_declared_of_no_lengths (h : ∀ f ∈ s, f.call.isSetLengths = false) :
    ¬ Declared s a p := fun hd => by
  simpa [DriverCall.isSetLengths] using h _ hd

theorem forall_append {P : DriverEvent → Prop} (h : ∀ f ∈ s, P f) (he : P e) :
    ∀ f ∈ s ++ [e], P f := by
  intro f hf
  rcases List.mem_append.mp hf with hf | hf
  · exact h f hf
  · rwa [List.mem_singleton.mp hf]

end Session

/-! ## One driver call

Each driver call of an active operation is in order, and on success the
operation that the core leaves still matches the session. -/

section Active

variable {op : PsaAeadOperation κ} {s : List DriverEvent}

theorem ActiveInv.head?_append (h : ActiveInv op s) (e : DriverEvent) :
    (s ++ [e]).head? = s.head? := by
  obtain ⟨alg, hhead, -⟩ := h.setup
  cases s with
  | nil => simp at hhead
  | cons f rest => rfl

theorem ActiveInv.setUpFor (h : ActiveInv op s) : SetUpFor op.isEncrypt s := by
  obtain ⟨alg, hhead, -⟩ := h.setup
  exact ⟨alg, by rw [hhead]; rfl⟩

theorem ActiveInv.declared_of_ccm (h : ActiveInv op s)
    (hccm : op.alg = psaAlgCcm → op.lengthsSet = true) :
    UsesCcm s → ∃ a p, Declared s a p := by
  rintro ⟨encrypt, alg, hmem, hbase⟩
  obtain ⟨alg', hhead, halg⟩ := h.setup
  rw [hhead, Option.mem_some_iff] at hmem
  cases hmem
  obtain ⟨a, p, hdeclared, -⟩ := h.lengths (hccm (halg.trans hbase))
  exact ⟨a, p, (hdeclared a p).mpr ⟨rfl, rfl⟩⟩

theorem ActiveInv.of_declared (h : ActiveInv op s) (hd : Declared s a p) :
    op.lengthsSet = true ∧ adBytes s + op.adRemaining = a ∧ bodyBytes s + op.bodyRemaining = p := by
  by_cases hset : op.lengthsSet = true
  · obtain ⟨a', p', hdeclared, had, hbody⟩ := h.lengths hset
    obtain ⟨rfl, rfl⟩ := (hdeclared a p).mp hd
    exact ⟨hset, had, hbody⟩
  · exact absurd hd (not_declared_of_no_lengths (h.noLengths (Bool.eq_false_iff.mpr hset)))

theorem ActiveInv.setNonce (h : ActiveInv op s) (ctx : κ) (nonce : Bytes.ByteString) :
    ActiveInv { op with ctx := ctx, nonceSet := true }
      (s ++ [{ call := .setNonce nonce, status := .success }]) where
  setup := by rw [h.head?_append]; exact h.setup
  nonce _ := ⟨_, List.mem_append_right _ (List.mem_singleton_self _), rfl, rfl⟩
  noNonce := by simp
  lengths hset := by
    obtain ⟨a, p, hdeclared, had, hbody⟩ := h.lengths hset
    refine ⟨a, p, fun a' p' => ?_, by simpa [DriverCall.adLength] using had,
      by simpa [DriverCall.bodyLength] using hbody⟩
    rw [declared_append_of_not rfl, hdeclared]
  noLengths hset := forall_append (h.noLengths hset) rfl
  noAd hset := forall_append (h.noAd hset) rfl
  noBody hset := forall_append (h.noBody hset) rfl

theorem ActiveInv.setLengths (h : ActiveInv op s) (ctx : κ) (a p : Nat)
    (hlen : op.lengthsSet = false) (had : op.adStarted = false)
    (hbody : op.bodyStarted = false) :
    ActiveInv
      { op with ctx := ctx, adRemaining := a, bodyRemaining := p, lengthsSet := true }
      (s ++ [{ call := .setLengths a p, status := .success }]) where
  setup := by rw [h.head?_append]; exact h.setup
  nonce hset := (h.nonce hset).append
  noNonce hset := forall_append (h.noNonce hset) rfl
  lengths _ := by
    have hnoAd := adBytes_eq_zero (h.noAd had)
    have hnoBody := bodyBytes_eq_zero (h.noBody hbody)
    refine ⟨a, p, fun a' p' => ?_, by simp [hnoAd, DriverCall.adLength],
      by simp [hnoBody, DriverCall.bodyLength]⟩
    rw [declared_append, or_iff_right (not_declared_of_no_lengths (h.noLengths hlen))]
    simp [eq_comm]
  noLengths := by simp
  noAd hset := forall_append (h.noAd hset) rfl
  noBody hset := forall_append (h.noBody hset) rfl

theorem ActiveInv.updateAd (h : ActiveInv op s) (ctx : κ) (input : Bytes.ByteString)
    {left : Nat} (hleft : op.lengthsSet = true → left + input.length = op.adRemaining) :
    ActiveInv { op with ctx := ctx, adRemaining := left, adStarted := true }
      (s ++ [{ call := .updateAd input, status := .success }]) where
  setup := by rw [h.head?_append]; exact h.setup
  nonce hset := (h.nonce hset).append
  noNonce hset := forall_append (h.noNonce hset) rfl
  lengths hset := by
    obtain ⟨a, p, hdeclared, had, hbody⟩ := h.lengths hset
    have hrest := hleft hset
    refine ⟨a, p, fun a' p' => ?_, ?_, by simpa [DriverCall.bodyLength] using hbody⟩
    · rw [declared_append_of_not rfl, hdeclared]
    · rw [adBytes_append]
      simp only [DriverCall.adLength]
      omega
  noLengths hset := forall_append (h.noLengths hset) rfl
  noAd := by simp
  noBody hset := forall_append (h.noBody hset) rfl

theorem ActiveInv.update (h : ActiveInv op s) (ctx : κ) (input : Bytes.ByteString)
    {left : Nat}
    (hleft : op.lengthsSet = true → left + input.length = op.bodyRemaining) :
    ActiveInv { op with ctx := ctx, bodyRemaining := left, bodyStarted := true }
      (s ++ [{ call := .update input, status := .success }]) where
  setup := by rw [h.head?_append]; exact h.setup
  nonce hset := (h.nonce hset).append
  noNonce hset := forall_append (h.noNonce hset) rfl
  lengths hset := by
    obtain ⟨a, p, hdeclared, had, hbody⟩ := h.lengths hset
    have hrest := hleft hset
    refine ⟨a, p, fun a' p' => ?_, by simpa [DriverCall.adLength] using had, ?_⟩
    · rw [declared_append_of_not rfl, hdeclared]
    · rw [bodyBytes_append]
      simp only [DriverCall.bodyLength]
      omega
  noLengths hset := forall_append (h.noLengths hset) rfl
  noAd hset := forall_append (h.noAd hset) rfl
  noBody := by simp

end Active

/-! ## One call -/

variable {r : AeadResult κ} {status : PsaStatus}

theorem psaAeadFinalChecks_success {op : PsaAeadOperation κ}
    (h : psaAeadFinalChecks op = .success) :
    op.id ≠ 0 ∧ op.nonceSet = true ∧
      (op.lengthsSet = true → op.adRemaining = 0 ∧ op.bodyRemaining = 0) := by
  unfold psaAeadFinalChecks at h
  split at h
  · cases h
  split at h
  · cases h
  next hid =>
  split at h
  · cases h
  next hrest =>
  simp only [not_or, Bool.not_eq_false] at hid
  refine ⟨hid.1, hid.2, fun hset => ?_⟩
  by_contra hne
  exact hrest ⟨hset, by omega⟩

def FailsInactive (r : AeadResult κ) : Prop := r.status ≠ .success → r.operation.id = 0

theorem failsInactive_of_success (h : r.status = .success) : FailsInactive r :=
  fun hne => absurd h hne

section Call

variable [Zero κ] {env : AeadEnv κ} {op : PsaAeadOperation κ}
  {log : List DriverEvent}

theorem psaAeadAbort_id : (psaAeadAbort env op).operation.id = 0 := by
  unfold psaAeadAbort
  split
  · assumption
  · rfl

/-- The invariant holds after a call that started at `log`. -/
abbrev AeadKeeps (log : List DriverEvent) (r : AeadResult κ) : Prop :=
  AeadInv (log ++ r.log) r.operation

theorem AeadInv.keeps_nil (h : AeadInv log op) :
    AeadKeeps log { status := status, operation := op, log := [] } := by
  rw [AeadKeeps, List.append_nil]
  exact h

theorem abortWith_active {l : List DriverEvent} (hid : op.id ≠ 0) (h : InOrder (log ++ l)) :
    AeadKeeps log (abortWith env op l status) := by
  have habort : InOrder (log ++ l ++ [{ call := .abort, status := env.driverAbort }]) :=
    inOrder_append h trivial
  unfold AeadKeeps abortWith psaAeadAbort
  rw [if_neg hid, ← List.append_assoc]
  exact ⟨habort, .inl ⟨rfl, 0, rfl, .inl rfl⟩⟩

theorem AeadInv.abortWith (h : AeadInv log op) (status : PsaStatus) :
    AeadKeeps log (abortWith env op [] status) := by
  by_cases hid : op.id = 0
  · have hnone : TfPsaCrypto.abortWith env op [] status = ⟨status, op, []⟩ := by
      rw [TfPsaCrypto.abortWith, psaAeadAbort, if_pos hid]
      rfl
    rw [hnone]
    exact h.keeps_nil
  · exact abortWith_active hid (by rw [List.append_nil]; exact h.1)

theorem AeadInv.guard {p : Prop} [Decidable p] (h : AeadInv log op) (hr : ¬ p → AeadKeeps log r) :
    AeadKeeps log (if p then TfPsaCrypto.abortWith env op [] status else r) := by
  split
  case isTrue => exact h.abortWith _
  case isFalse hp => exact hr hp

theorem driverExit_inv {call : DriverCall}
    {done : PsaAeadOperation κ → PsaAeadOperation κ} (hid : op.id ≠ 0)
    (hlog : InOrder log) (hcall : call.isSetup = false)
    (hrule : ∀ status, DriverRule (session log) { call := call, status := status })
    (hdone : (done { op with ctx := env.driver.ctx }).id ≠ 0 ∧
      ActiveInv (done { op with ctx := env.driver.ctx })
        (session log ++ [{ call := call, status := .success }])) :
    AeadKeeps log (driverExit env op call done) := by
  unfold driverExit
  split
  · next hok =>
    rw [hok]
    refine ⟨inOrder_append hlog (hrule _), .inr ⟨hdone.1, ?_⟩⟩
    rw [session_append hcall]
    exact hdone.2
  · exact abortWith_active hid (inOrder_append hlog (hrule _))

theorem AeadInv.active (h : AeadInv log op) (hid : op.id ≠ 0) :
    ActiveInv op (session log) :=
  h.2.elim (fun hz => absurd hz.1 hid) And.right

theorem AeadInv.setup (h : AeadInv log op) (isEncrypt : Bool) (alg : PsaAlgorithm) :
    AeadKeeps log (psaAeadSetup env op isEncrypt alg) := by
  unfold psaAeadSetup
  refine h.guard fun _ => h.guard fun hid => ?_
  rw [not_not] at hid
  refine h.guard fun _ => ?_
  obtain ⟨ctx, rfl, -⟩ : InactiveInv op log := h.2.elim And.right fun ha => absurd hid ha.1
  have hzero : AeadInv log (PsaAeadOperation.init (0 : κ)) := ⟨h.1, .inl ⟨rfl, 0, rfl, .inl rfl⟩⟩
  split
  · exact hzero.abortWith _
  split
  · exact hzero.abortWith _
  split
  · exact hzero.abortWith _
  · exact hzero.abortWith _
  next id hne result _ =>
  split
  · exact abortWith_active hne (inOrder_append h.1 trivial)
  next hok =>
  rw [not_not] at hok
  refine ⟨inOrder_append h.1 trivial, .inr ⟨hne, ?_⟩⟩
  rw [session_append_setup rfl, hok]
  constructor <;>
    simp [PsaAeadOperation.init, DriverCall.isSetNonce, DriverCall.isSetLengths,
      DriverCall.isUpdateAd, DriverCall.isUpdate]

theorem AeadInv.setNonceInternal (h : AeadInv log op) (nonce : Bytes.ByteString) :
    AeadKeeps log (psaAeadSetNonceInternal env op nonce) := by
  unfold psaAeadSetNonceInternal
  refine h.guard fun hid => h.guard fun hset => h.guard fun _ => ?_
  have hact := h.active hid
  exact driverExit_inv hid h.1 rfl (fun _ => hact.noNonce (Bool.eq_false_iff.mpr hset))
    ⟨hid, hact.setNonce _ nonce⟩

theorem AeadInv.generateNonce (h : AeadInv log op) (nonceSize : Nat)
    (randomNonce : Nat → Bytes.ByteString) :
    AeadKeeps log (psaAeadGenerateNonce env op nonceSize randomNonce) := by
  unfold psaAeadGenerateNonce
  dsimp only
  refine h.guard fun _ => h.guard fun _ => h.guard fun _ => h.guard fun _ => h.guard fun _ => ?_
  have hset : AeadKeeps log (psaAeadSetNonceInternal env op
      (randomNonce (psaAeadNonceLength op.keyType op.alg))) :=
    h.setNonceInternal _
  split
  · have habort : AeadInv _ (TfPsaCrypto.abortWith env _ [] _).operation :=
      hset.abortWith (psaAeadSetNonceInternal env op
        (randomNonce (psaAeadNonceLength op.keyType op.alg))).status
    unfold TfPsaCrypto.abortWith at habort ⊢
    simpa using habort
  · exact hset

theorem AeadInv.setNonce (h : AeadInv log op) (nonce : Bytes.ByteString) :
    AeadKeeps log (psaAeadSetNonce env op nonce) := by
  unfold psaAeadSetNonce
  dsimp only
  split
  · exact h.keeps_nil
  · exact h.setNonceInternal nonce

theorem AeadInv.setLengths (h : AeadInv log op) (adLength plaintextLength : Nat) :
    AeadKeeps log (psaAeadSetLengths env op adLength plaintextLength) := by
  unfold psaAeadSetLengths
  refine h.guard fun hid => h.guard fun hset => h.guard fun _ => h.guard fun _ => ?_
  simp only [not_or, Bool.not_eq_true] at hset
  obtain ⟨hlen, had, hbody⟩ := hset
  have hact := h.active hid
  refine driverExit_inv hid h.1 rfl (fun _ f hf => ?_) ⟨hid, hact.setLengths _ _ _ hlen had hbody⟩
  exact ⟨hact.noLengths hlen f hf, hact.noAd had f hf, hact.noBody hbody f hf⟩

theorem AeadInv.updateAd (h : AeadInv log op) (input : Bytes.ByteString) :
    AeadKeeps log (psaAeadUpdateAd env op input) := by
  unfold psaAeadUpdateAd
  dsimp only
  refine h.guard fun _ => h.guard fun hid => h.guard fun hstate => ?_
  simp only [not_or, Bool.not_eq_false, Bool.not_eq_true] at hstate
  have hact := h.active hid
  have hbody := hact.noBody hstate.2
  split
  · exact AeadInv.keeps_nil ⟨h.1, .inr ⟨hid, { hact with noAd := by simp }⟩⟩
  split
  · next hset =>
    refine h.guard fun hle => ?_
    have hleft : op.lengthsSet = true →
        op.adRemaining - input.length + input.length = op.adRemaining :=
      fun _ => by omega
    refine driverExit_inv hid h.1 rfl (fun _ => ⟨hact.nonce hstate.1, hbody, ?_, ?_⟩)
      ⟨hid, hact.updateAd _ input hleft⟩
    · intro a p hd
      obtain ⟨_, had, _⟩ := hact.of_declared hd
      omega
    · exact hact.declared_of_ccm fun _ => hset
  next hset =>
  refine h.guard fun hccm => ?_
  refine driverExit_inv hid h.1 rfl (fun _ => ⟨hact.nonce hstate.1, hbody, ?_, ?_⟩)
    ⟨hid, hact.updateAd _ input fun hlen => absurd hlen hset⟩
  · intro a p hd
    exact absurd (hact.of_declared hd).1 hset
  · exact hact.declared_of_ccm fun halg => absurd halg hccm

theorem AeadInv.update (h : AeadInv log op) (input : Bytes.ByteString)
    (outputSize : Nat) :
    AeadKeeps log (psaAeadUpdate env op input outputSize) := by
  unfold psaAeadUpdate
  dsimp only
  refine h.guard fun _ => h.guard fun _ => h.guard fun hid => h.guard fun hnonce => ?_
  rw [Bool.not_eq_false] at hnonce
  have hact := h.active hid
  split
  · next hset =>
    refine h.guard fun had => h.guard fun hle => ?_
    have hleft : op.lengthsSet = true →
        op.bodyRemaining - input.length + input.length = op.bodyRemaining :=
      fun _ => by omega
    refine driverExit_inv hid h.1 rfl (fun _ => ⟨hact.nonce hnonce, ?_, ?_⟩)
      ⟨hid, hact.update _ input hleft⟩
    · intro a p hd
      obtain ⟨_, _, _⟩ := hact.of_declared hd
      omega
    · exact hact.declared_of_ccm fun _ => hset
  next hset =>
  refine h.guard fun hccm => ?_
  refine driverExit_inv hid h.1 rfl (fun _ => ⟨hact.nonce hnonce, ?_, ?_⟩)
    ⟨hid, hact.update _ input fun hlen => absurd hlen hset⟩
  · intro a p hd
    exact absurd (hact.of_declared hd).1 hset
  · exact hact.declared_of_ccm fun halg => absurd halg hccm

theorem AeadInv.final (h : AeadInv log op) {encrypt : Bool} {call : DriverCall}
    (hcall : call = .finish ∧ encrypt = true ∨ ∃ tag, call = .verify tag ∧ encrypt = false) :
    AeadKeeps log (psaAeadFinal env op encrypt call) := by
  unfold psaAeadFinal
  refine h.guard fun hchecks => ?_
  obtain ⟨hid, _, hrest⟩ := psaAeadFinalChecks_success (not_not.mp hchecks)
  refine h.guard fun hdir => ?_
  have hact := h.active hid
  have hfor := hact.setUpFor
  rw [not_not.mp hdir] at hfor
  have hall : ∀ a p, Declared (session log) a p →
      adBytes (session log) = a ∧ bodyBytes (session log) = p := by
    intro a p hd
    obtain ⟨hset, had, hbody⟩ := hact.of_declared hd
    have := hrest hset
    omega
  have hrule : DriverRule (session log) { call := call, status := env.driver.status } := by
    rcases hcall with ⟨rfl, rfl⟩ | ⟨tag, rfl, rfl⟩
    · exact ⟨hfor, hall⟩
    · exact ⟨hfor, hall⟩
  exact abortWith_active hid (inOrder_append h.1 hrule)

theorem AeadInv.finish (h : AeadInv log op) (ciphertextSize tagSize : Nat) :
    AeadKeeps log (psaAeadFinish env op ciphertextSize tagSize) := by
  unfold psaAeadFinish
  dsimp only
  refine h.guard fun _ => h.guard fun _ => ?_
  exact h.final (.inl ⟨rfl, rfl⟩)

theorem AeadInv.verify (h : AeadInv log op) (plaintextSize : Nat)
    (tag : Bytes.ByteString) :
    AeadKeeps log (psaAeadVerify env op plaintextSize tag) := by
  unfold psaAeadVerify
  dsimp only
  refine h.guard fun _ => h.guard fun _ => ?_
  exact h.final (.inr ⟨tag, rfl, rfl⟩)

theorem AeadInv.call (h : AeadInv log op) (call : AeadCall) :
    AeadKeeps log (aeadCall env op call) := by
  cases call with
  | encryptSetup alg => exact h.setup true alg
  | decryptSetup alg => exact h.setup false alg
  | generateNonce size random => exact h.generateNonce size random
  | setNonce nonce => exact h.setNonce nonce
  | setLengths a p => exact h.setLengths a p
  | updateAd input => exact h.updateAd input
  | update input size => exact h.update input size
  | finish c t => exact h.finish c t
  | verify p tag => exact h.verify p tag
  | abort => exact h.abortWith .success

/-! ## Calls that fail -/

def AeadCall.isSetup : AeadCall → Bool
  | .encryptSetup _ => true
  | .decryptSetup _ => true
  | _ => false

def AeadCall.isAbort : AeadCall → Bool
  | .abort => true
  | _ => false

def SetupResult.accepted : SetupResult κ → Bool
  | .entered _ _ result => result.status = .success
  | _ => false

/-- Everything in `psa_aead_setup` up to the unlock of the key succeeds. -/
def setupReachesUnlock (env : AeadEnv κ) (op : PsaAeadOperation κ)
    (alg : PsaAlgorithm) : Bool :=
  psaAeadCheckAlgorithm alg = .success && op.id = 0 && env.keySlot.isOk &&
    psaValidateTagLength alg = .success && env.setup.accepted

/-- The call takes neither path that returns an error with no abort: no local copy of the nonce on
an active operation, or a key that is not unlocked after the driver accepted the setup. -/
def AbortsOnError (op : PsaAeadOperation κ) (a : AeadCall × AeadEnv κ) : Prop :=
  match a.1 with
  | .setNonce nonce =>
    op.id = 0 ∨ psaCryptoLocalAlloc a.2.inputCalloc nonce.length = .success
  | .encryptSetup alg | .decryptSetup alg =>
    setupReachesUnlock a.2 op alg = false ∨ a.2.unregister = .success
  | _ => True

instance (op : PsaAeadOperation κ) (a : AeadCall × AeadEnv κ) :
    Decidable (AbortsOnError op a) := by
  unfold AbortsOnError
  split <;> infer_instance

theorem failsInactive_abortWith (l : List DriverEvent) (status : PsaStatus) :
    FailsInactive (abortWith env op l status) :=
  fun _ => psaAeadAbort_id

theorem FailsInactive.guard {p : Prop} [Decidable p] {l : List DriverEvent}
    (h : ¬ p → FailsInactive r) :
    FailsInactive (if p then abortWith env op l status else r) := by
  split
  case isTrue => exact failsInactive_abortWith _ _
  case isFalse hp => exact h hp

theorem failsInactive_driverExit (call : DriverCall)
    (done : PsaAeadOperation κ → PsaAeadOperation κ) :
    FailsInactive (driverExit env op call done) := by
  unfold driverExit
  split
  · exact failsInactive_of_success rfl
  · exact failsInactive_abortWith _ _

theorem failsInactive_setup (isEncrypt : Bool) (alg : PsaAlgorithm)
    (h : setupReachesUnlock env op alg = false ∨ env.unregister = .success) :
    FailsInactive (psaAeadSetup env op isEncrypt alg) := by
  unfold psaAeadSetup
  refine .guard fun halg => .guard fun hid => .guard fun _ => ?_
  dsimp only
  split
  · exact failsInactive_abortWith _ _
  next hkey =>
  refine .guard fun htag => ?_
  split
  · exact failsInactive_abortWith _ _
  · exact failsInactive_abortWith _ _
  next hsetup =>
  refine .guard fun hdriver => ?_
  rw [not_not] at halg hid htag hdriver
  rcases h with hreach | hunlock
  · simp [setupReachesUnlock, halg, hid, hkey, htag, hsetup, SetupResult.accepted,
      hdriver, Except.isOk, Except.toBool] at hreach
  · exact failsInactive_of_success hunlock

theorem failsInactive_setNonceInternal (nonce : Bytes.ByteString) :
    FailsInactive (psaAeadSetNonceInternal env op nonce) := by
  unfold psaAeadSetNonceInternal
  refine .guard fun _ => .guard fun _ => ?_
  exact .guard fun _ => failsInactive_driverExit _ _

theorem failsInactive_generateNonce (nonceSize : Nat)
    (randomNonce : Nat → Bytes.ByteString) :
    FailsInactive (psaAeadGenerateNonce env op nonceSize randomNonce) := by
  unfold psaAeadGenerateNonce
  dsimp only
  refine .guard fun _ => .guard fun _ => .guard fun _ => .guard fun _ => .guard fun _ => ?_
  exact .guard fun h => failsInactive_of_success (not_not.mp h)

theorem failsInactive_setNonce (nonce : Bytes.ByteString)
    (h : op.id = 0 ∨ psaCryptoLocalAlloc env.inputCalloc nonce.length = .success) :
    FailsInactive (psaAeadSetNonce env op nonce) := by
  unfold psaAeadSetNonce
  dsimp only
  split
  · next halloc => exact fun _ => h.resolve_right halloc
  · exact failsInactive_setNonceInternal nonce

theorem failsInactive_setLengths (adLength plaintextLength : Nat) :
    FailsInactive (psaAeadSetLengths env op adLength plaintextLength) := by
  unfold psaAeadSetLengths
  refine .guard fun _ => .guard fun _ => .guard fun _ => ?_
  exact .guard fun _ => failsInactive_driverExit _ _

theorem failsInactive_updateAd (input : Bytes.ByteString) :
    FailsInactive (psaAeadUpdateAd env op input) := by
  unfold psaAeadUpdateAd
  dsimp only
  refine .guard fun _ => .guard fun _ => .guard fun _ => ?_
  split
  · exact failsInactive_of_success rfl
  split
  · split
    · exact failsInactive_abortWith _ _
    · exact failsInactive_driverExit _ _
  exact .guard fun _ => failsInactive_driverExit _ _

theorem failsInactive_update (input : Bytes.ByteString) (outputSize : Nat) :
    FailsInactive (psaAeadUpdate env op input outputSize) := by
  unfold psaAeadUpdate
  dsimp only
  refine .guard fun _ => .guard fun _ => .guard fun _ => .guard fun _ => ?_
  split
  · split
    · exact failsInactive_abortWith _ _
    · exact .guard fun _ => failsInactive_driverExit _ _
  exact .guard fun _ => failsInactive_driverExit _ _

theorem failsInactive_final (encrypt : Bool) (call : DriverCall) :
    FailsInactive (psaAeadFinal env op encrypt call) := by
  unfold psaAeadFinal
  exact .guard fun _ => .guard fun _ => failsInactive_abortWith _ _

theorem failsInactive_call {call : AeadCall} (hok : AbortsOnError op (call, env)) :
    FailsInactive (aeadCall env op call) := by
  cases call with
  | encryptSetup alg => exact failsInactive_setup true alg hok
  | decryptSetup alg => exact failsInactive_setup false alg hok
  | generateNonce size random => exact failsInactive_generateNonce size random
  | setNonce nonce => exact failsInactive_setNonce nonce hok
  | setLengths a p => exact failsInactive_setLengths a p
  | updateAd input => exact failsInactive_updateAd input
  | update input size => exact failsInactive_update input size
  | finish c t =>
    unfold aeadCall psaAeadFinish
    dsimp only
    exact .guard fun _ => .guard fun _ => failsInactive_final _ _
  | verify p tag =>
    unfold aeadCall psaAeadVerify
    dsimp only
    exact .guard fun _ => .guard fun _ => failsInactive_final _ _
  | abort => exact fun _ => psaAeadAbort_id

theorem call_skips_abort {log : List DriverEvent} {call : AeadCall}
    (hinv : AeadInv log op) (h : ¬ AbortsOnError op (call, env)) :
    (aeadCall env op call).status ≠ .success ∧ (aeadCall env op call).operation.id ≠ 0 := by
  have hsetup : ∀ isEncrypt alg,
      ¬ (setupReachesUnlock env op alg = false ∨ env.unregister = .success) →
      (psaAeadSetup env op isEncrypt alg).status ≠ .success ∧
        (psaAeadSetup env op isEncrypt alg).operation.id ≠ 0 := by
    intro isEncrypt alg hnot
    rw [not_or, Bool.not_eq_false] at hnot
    obtain ⟨hreach, hunlock⟩ := hnot
    simp only [setupReachesUnlock, Bool.and_eq_true, decide_eq_true_eq] at hreach
    obtain ⟨⟨⟨⟨halg, hid⟩, hkey⟩, htag⟩, hdriver⟩ := hreach
    obtain ⟨ctx, rfl, -⟩ : InactiveInv op log := hinv.2.elim And.right fun ha => absurd hid ha.1
    obtain ⟨keyType, hkey⟩ : ∃ keyType, env.keySlot = .ok keyType := by
      cases hslot : env.keySlot with
      | ok keyType => exact ⟨keyType, rfl⟩
      | error e => simp [hslot, Except.isOk, Except.toBool] at hkey
    obtain ⟨id, hne, result, hentered⟩ :
        ∃ id hne result, env.setup = .entered id hne result := by
      cases hs : env.setup with
      | entered id hne result => exact ⟨id, hne, result, rfl⟩
      | invalidLocation => simp [hs, SetupResult.accepted] at hdriver
      | notSupported => simp [hs, SetupResult.accepted] at hdriver
    have haccept : result.status = .success := by
      simpa [hentered, SetupResult.accepted] using hdriver
    unfold psaAeadSetup
    simp [halg, hkey, htag, hentered, haccept, PsaAeadOperation.init, hunlock, hne]
  cases call with
  | encryptSetup alg => exact hsetup true alg h
  | decryptSetup alg => exact hsetup false alg h
  | setNonce nonce =>
    simp only [AbortsOnError, not_or] at h
    have hexit : psaAeadSetNonce env op nonce
        = ⟨psaCryptoLocalAlloc env.inputCalloc nonce.length, op, []⟩ := if_pos h.2
    rw [aeadCall, hexit]
    exact ⟨h.2, h.1⟩
  | _ => exact absurd trivial h

def Refused (op : PsaAeadOperation κ) (r : AeadResult κ) : Prop :=
  r.status ≠ .success ∧ r.log = [] ∧ r.operation = op

theorem refused_abortWith (hid : op.id = 0) (hne : status ≠ .success) :
    Refused op (abortWith env op [] status) := by
  rw [abortWith, psaAeadAbort, if_pos hid]
  exact ⟨hne, rfl, rfl⟩

theorem refused_final {encrypt : Bool} {call : DriverCall} (hid : op.id = 0) :
    Refused op (psaAeadFinal env op encrypt call) := by
  have hchecks : psaAeadFinalChecks op ≠ .success := fun h => (psaAeadFinalChecks_success h).1 hid
  rw [psaAeadFinal, if_pos hchecks]
  exact refused_abortWith hid hchecks

theorem refused_call {call : AeadCall} (hid : op.id = 0)
    (hcall : call.isSetup = false ∧ call.isAbort = false) :
    Refused op (aeadCall env op call) := by
  have hbad : Refused op (abortWith env op [] .errorBadState) := refused_abortWith hid (by simp)
  cases call with
  | encryptSetup alg => simp [AeadCall.isSetup] at hcall
  | decryptSetup alg => simp [AeadCall.isSetup] at hcall
  | abort => simp [AeadCall.isAbort] at hcall
  | generateNonce size random =>
    simp only [aeadCall, psaAeadGenerateNonce, if_pos hid]
    split
    · next hne => exact refused_abortWith hid hne
    · exact hbad
  | setNonce nonce =>
    simp only [aeadCall, psaAeadSetNonce, psaAeadSetNonceInternal, if_pos hid]
    split
    · next hne => exact ⟨hne, rfl, rfl⟩
    · exact hbad
  | setLengths a p =>
    simp only [aeadCall, psaAeadSetLengths, if_pos hid]
    exact hbad
  | updateAd input =>
    simp only [aeadCall, psaAeadUpdateAd, if_pos hid]
    split
    · next hne => exact refused_abortWith hid hne
    · exact hbad
  | update input size =>
    simp only [aeadCall, psaAeadUpdate, if_pos hid]
    split
    · next hne => exact refused_abortWith hid hne
    split
    · next hne => exact refused_abortWith hid hne
    · exact hbad
  | finish c t =>
    simp only [aeadCall, psaAeadFinish]
    split
    · next hne => exact refused_abortWith hid hne
    split
    · next hne => exact refused_abortWith hid hne
    · exact refused_final hid
  | verify p tag =>
    simp only [aeadCall, psaAeadVerify]
    split
    · next hne => exact refused_abortWith hid hne
    split
    · next hne => exact refused_abortWith hid hne
    · exact refused_final hid

end Call

/-! ## Sequences of calls -/

def driverLog (tr : List ((AeadCall × AeadEnv κ) × AeadObservation)) :
    List DriverEvent :=
  (tr.map fun e => e.2.log).flatten

theorem driverLog_append (tr : List ((AeadCall × AeadEnv κ) × AeadObservation))
    (e : (AeadCall × AeadEnv κ) × AeadObservation) :
    driverLog (tr ++ [e]) = driverLog tr ++ e.2.log := by
  simp [driverLog]

section Runs

variable [Zero κ] {ctx : κ} {op op' : PsaAeadOperation κ}
  {tr : List ((AeadCall × AeadEnv κ) × AeadObservation)}

theorem aeadMachine_eq_some {a : AeadCall × AeadEnv κ} {o : AeadObservation} :
    aeadMachine op a = some (op', o) ↔
      op' = (aeadCall a.2 op a.1).operation ∧
        o.status = (aeadCall a.2 op a.1).status ∧
        o.log = (aeadCall a.2 op a.1).log := by
  obtain ⟨status, log⟩ := o
  simp only [aeadMachine, Option.some.injEq, Prod.mk.injEq, AeadObservation.mk.injEq]
  exact ⟨fun h => ⟨h.1.symm, h.2.1.symm, h.2.2.symm⟩, fun h => ⟨h.1.symm, h.2.1.symm, h.2.2.symm⟩⟩

theorem run_inv (h : Machine.Run aeadMachine (.init ctx) tr op) :
    AeadInv (driverLog tr) op := by
  refine Machine.Run.invariant (I := fun tr op => AeadInv (driverLog tr) op)
    (P := fun _ => True) ⟨by simp [InOrder, driverLog], .inl ⟨rfl, ctx, rfl, .inr rfl⟩⟩
    ?_ h fun _ _ => trivial
  intro tr op a op' o hinv _ hstep
  obtain ⟨rfl, _, hlog⟩ := aeadMachine_eq_some.mp hstep
  rw [driverLog_append, hlog]
  exact hinv.call a.1

theorem run_inactive
    (h : Machine.Run (Machine.restrict aeadMachine AbortsOnError) op tr op')
    (hid : op.id = 0)
    (hsetup : ∀ e ∈ tr, e.1.1.isSetup = true → e.2.status ≠ .success) :
    op'.id = 0 := by
  refine Machine.Run.invariant (I := fun _ op => op.id = 0)
    (P := fun e => e.1.1.isSetup = true → e.2.status ≠ .success) hid ?_ h hsetup
  intro _ op a op' o hid hfail hstep
  obtain ⟨hok, hstep⟩ := Machine.restrict_eq_some.mp hstep
  obtain ⟨rfl, hstatus, _⟩ := aeadMachine_eq_some.mp hstep
  by_cases hcall : a.1.isSetup = true
  · exact failsInactive_call hok (hstatus ▸ hfail hcall)
  by_cases habort : a.1.isAbort = true
  · obtain ⟨call, env⟩ := a
    cases call <;> simp [AeadCall.isAbort] at habort
    exact psaAeadAbort_id
  · rw [(refused_call hid ⟨by simpa using hcall, by simpa using habort⟩).2.2]
    exact hid

end Runs

/-- **Multipart AEAD.** In every run the driver is called in order. A call that aborts on error and
fails leaves the operation inactive, and the driver out of reach until a setup succeeds; another
call that fails leaves it active. -/
theorem aead_protocol_enforced [Zero κ] (ctx : κ) :
    (∀ tr op, Machine.Run aeadMachine (.init ctx) tr op → InOrder (driverLog tr)) ∧
    (∀ tr a o op,
      Machine.Run (Machine.restrict aeadMachine AbortsOnError) (.init ctx)
        (tr ++ [(a, o)]) op → o.status ≠ .success →
      (∃ ctx', op = .init ctx' ∧ (ctx' = 0 ∨ driverLog (tr ++ [(a, o)]) = [])) ∧
      ∀ tr' b o' op',
        Machine.Run (Machine.restrict aeadMachine AbortsOnError) op (tr' ++ [(b, o')]) op' →
        (∀ e ∈ tr', e.1.1.isSetup = true → e.2.status ≠ .success) →
        b.1.isSetup = false → b.1.isAbort = false →
        o'.status ≠ .success ∧ o'.log = []) ∧
    (∀ tr op a, Machine.Run aeadMachine (.init ctx) tr op → ¬ AbortsOnError op a →
      (aeadCall a.2 op a.1).status ≠ .success ∧ (aeadCall a.2 op a.1).operation.id ≠ 0) := by
  refine ⟨fun tr op h => (run_inv h).1, ?_, fun tr op a h hnot =>
    call_skips_abort (run_inv h) hnot⟩
  intro tr a o op h hfail
  have hid : op.id = 0 := by
    obtain ⟨op₁, _, hstep⟩ := h.snoc_inv
    obtain ⟨hok, hstep⟩ := Machine.restrict_eq_some.mp hstep
    obtain ⟨rfl, hstatus, _⟩ := aeadMachine_eq_some.mp hstep
    exact failsInactive_call hok (hstatus ▸ hfail)
  have hinv := run_inv h.of_restrict
  refine ⟨hinv.2.elim And.right fun hact => absurd hid hact.1, ?_⟩
  intro tr' b o' op' h' hsetup hbs hba
  obtain ⟨op₁, hpre, hstep⟩ := h'.snoc_inv
  have hid₁ := run_inactive hpre hid hsetup
  obtain ⟨_, hstep⟩ := Machine.restrict_eq_some.mp hstep
  obtain ⟨_, hstatus, hlog⟩ := aeadMachine_eq_some.mp hstep
  have hrefused : Refused op₁ (aeadCall b.2 op₁ b.1) := refused_call hid₁ ⟨hbs, hba⟩
  obtain ⟨hne, hnil, _⟩ := hrefused
  exact ⟨hstatus ▸ hne, hlog.trans hnil⟩

def permissiveEnv : AeadEnv Nat :=
  { keySlot := .ok 0x2400
    unregister := .success
    setup := .entered 1 (by decide) { status := .success, ctx := 0 }
    driver := { status := .success, ctx := 0 }
    driverAbort := .success
    random := .success
    inputCalloc := true
    outputCalloc := true
    tagCalloc := true }

/-- CCM data before the nonce is refused and aborts the operation, and so is a
finish that follows. -/
theorem aead_protocol_enforced_witness :
    let setup : AeadCall × AeadEnv Nat := (.encryptSetup psaAlgCcm, permissiveEnv)
    let update : AeadCall × AeadEnv Nat := (.update [1] 1, permissiveEnv)
    let finish : AeadCall × AeadEnv Nat := (.finish 0 16, permissiveEnv)
    ∃ o₁ o₂ o₃ op op',
      Machine.Run (Machine.restrict aeadMachine AbortsOnError)
        (PsaAeadOperation.init 0) ([(setup, o₁)] ++ [(update, o₂)]) op ∧
      op = .init 0 ∧
      Machine.Run (Machine.restrict aeadMachine AbortsOnError) op ([] ++ [(finish, o₃)]) op' ∧
      o₃.status ≠ .success ∧ o₃.log = [] := by
  intro setup update finish
  have hrun : Machine.Run (Machine.restrict aeadMachine AbortsOnError)
      (PsaAeadOperation.init 0)
      ([(setup, { status := .success, log := [⟨.setup true psaAlgCcm, .success⟩] })] ++
        [(update, { status := .errorBadState, log := [⟨.abort, .success⟩] })])
      (PsaAeadOperation.init 0) :=
    (Machine.Run.nil.snoc rfl).snoc rfl
  have hrun' : Machine.Run (Machine.restrict aeadMachine AbortsOnError)
      (PsaAeadOperation.init 0)
      ([] ++ [(finish, { status := .errorBadState, log := [] })])
      (PsaAeadOperation.init 0) :=
    Machine.Run.nil.snoc rfl
  obtain ⟨_, herror, _⟩ := aead_protocol_enforced (0 : Nat)
  obtain ⟨_, hlater⟩ := herror _ _ _ _ hrun (by decide)
  obtain ⟨hne, hlog⟩ := hlater _ _ _ _ hrun' (by simp) rfl rfl
  exact ⟨_, _, _, _, _, hrun, rfl, hrun', hne, hlog⟩

/-- **Counterexample.** After a setup for GCM, a `psa_aead_set_nonce` that cannot
copy its nonce returns an error and leaves the operation active. -/
theorem aead_active_after_error :
    ¬ ∀ tr a o op, Machine.Run aeadMachine (PsaAeadOperation.init (0 : Nat))
        (tr ++ [(a, o)]) op → o.status ≠ .success → op.id = 0 := by
  intro h
  have hrun : Machine.Run aeadMachine (PsaAeadOperation.init (0 : Nat))
      ([((.encryptSetup psaAlgGcm, permissiveEnv),
          { status := .success, log := [⟨.setup true psaAlgGcm, .success⟩] })] ++
        [((.setNonce (List.replicate 12 0), { permissiveEnv with inputCalloc := false }),
          { status := .errorInsufficientMemory, log := [] })])
      { PsaAeadOperation.init 0 with
          id := 1, alg := psaAlgGcm, keyType := 0x2400, isEncrypt := true } :=
    (Machine.Run.nil.snoc rfl).snoc rfl
  exact absurd (h _ _ _ _ hrun (by decide)) (by decide)

end TfPsaCrypto
