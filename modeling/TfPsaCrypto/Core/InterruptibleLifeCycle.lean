import TfPsaCrypto.Core.InterruptibleRuns

/-!
# The life cycle of an interruptible operation

What a call leaves, where the calls keep to the states that they are made for.
-/

namespace TfPsaCrypto.Interruptible

open IopOperation

/-! ## The documented states -/

/-- Whether a call has returned an error since the last abort, and whether the last call that
changed the object has completed it. -/
structure Life where
  failed : Bool
  completed : Bool
  deriving DecidableEq, Repr

def Life.fresh : Life := { failed := false, completed := false }

def isError (status : PsaStatus) : Bool := status ≠ .success && status ≠ .operationIncomplete

def Life.next (life : Life) (call : IopCall) (status : PsaStatus) : Life :=
  match call with
  | .start _ => { failed := life.failed || isError status, completed := false }
  | .complete _ =>
    { failed := life.failed || isError status, completed := status = .success }
  | .getNumOps => life
  | .abort _ => .fresh

structure SameAsFresh (r fresh : IopResult) : Prop where
  status : r.status = fresh.status
  events : r.events = fresh.events
  id : r.operation.id = fresh.operation.id
  errorOccurred : r.operation.errorOccurred = fresh.operation.errorOccurred
  numOps : r.status = .success → r.operation.numOps = fresh.operation.numOps

structure LifeStep (kind : IopKind) (operation : IopOperation) (life : Life) (call : IopCall) :
    Prop where
  failed : life.failed = true → (∃ e, call = .start e) ∨ (∃ e, call = .complete e) →
    (kind.call operation call).status = .errorBadState
  inactive : life.completed = true → ∀ e, call = .start e →
    SameAsFresh (kind.call operation call) (kind.call .init call)
  aborted : ∀ status, call = .abort status → (kind.call operation call).operation = .init

/-- No start while active and no continuation while inactive, where the code sets no error state. A
completed key agreement is aborted before the next setup, and a failed key generation is only set up
for an ECC key. -/
def Regular (kind : IopKind) (operation : IopOperation) (life : Life) : IopCall → Prop
  | .start e =>
    match kind with
    | .signHash => operation.id = 0 ∨ operation.errorOccurred = true
    | .verifyHash => operation.id = 0 ∨ operation.errorOccurred = true
    | .keyAgreement =>
      (operation.id = 0 ∨ operation.errorOccurred = true) ∧ life.completed = false
    | .generateKey => life.failed = true → e.isEcc = true
  | .complete _ =>
    match kind with
    | .signHash => True
    | .verifyHash => True
    | .keyAgreement => operation.id ≠ 0 ∨ operation.errorOccurred = true
    | .generateKey => operation.id ≠ 0 ∨ operation.errorOccurred = true
  | _ => True

variable {operation : IopOperation} {r : IopResult} {status : PsaStatus}

theorem abortInternal_flag (operation : IopOperation) (status : PsaStatus) :
    (operation.abortInternal status).operation.errorOccurred = operation.errorOccurred ∧
      (operation.abortInternal status).operation.id = 0 := by
  unfold abortInternal
  split
  · exact ⟨rfl, ‹_›⟩
  · exact ⟨rfl, rfl⟩

theorem fail_flag (operation : IopOperation) (status : PsaStatus) :
    (operation.fail status).operation.errorOccurred = true :=
  (abortInternal_flag { operation with errorOccurred := true } status).1

theorem exitStart_flag (r : IopResult) (e : StartEnv) (acquired : Bool)
    (h : (exitStart r e acquired).status ≠ .success) :
    (exitStart r e acquired).operation.errorOccurred = true := by
  unfold exitStart at h ⊢
  dsimp only at h ⊢
  by_cases hunlock : e.unlock = .success
  · rw [if_neg (not_not_intro hunlock)]
    by_cases hstatus : r.status = .success
    · rw [if_pos hstatus] at h
      exact absurd hunlock h
    · rw [if_pos hstatus]
      exact fail_flag r.operation e.abort
  · rw [if_pos hunlock]

theorem exitSetup_flag (r : IopResult) (e : StartEnv) (acquired : Bool)
    (h : (exitSetup r e acquired).status ≠ .success) :
    (exitSetup r e acquired).operation.errorOccurred = true := by
  unfold exitSetup at h ⊢
  by_cases hstatus : r.status = .success
  · rw [if_neg (not_not_intro hstatus)] at h ⊢
    rw [if_pos h]
  · rw [if_pos hstatus]
    exact fail_flag r.operation e.abort

theorem exitGenerate_flag (r : IopResult) (e : StartEnv)
    (h : (exitGenerate r e).status ≠ .success) :
    (exitGenerate r e).operation.errorOccurred = true := by
  unfold exitGenerate at h ⊢
  by_cases hstatus : r.status = .success
  · rw [if_neg (not_not_intro hstatus)] at h
    exact absurd hstatus h
  · rw [if_pos hstatus]
    exact fail_flag r.operation e.abort

theorem start_flag (kind : IopKind) (e : StartEnv) (operation : IopOperation)
    (hstate : kind ≠ .generateKey → operation.id = 0 ∨ operation.errorOccurred = true)
    (h : (kind.start e operation).status ≠ .success) :
    (kind.start e operation).operation.errorOccurred = true := by
  have hflag : kind ≠ .generateKey → operation.id ≠ 0 ∨ operation.errorOccurred = true →
      operation.errorOccurred = true := fun hkind hbad =>
    (hstate hkind).elim (fun hid => hbad.resolve_left (not_not_intro hid)) id
  -- an early return sets the flag, unless the object was in a bad state already
  cases kind with
  | signHash =>
    change (psaSignHashStart e operation).status ≠ .success at h
    change (psaSignHashStart e operation).operation.errorOccurred = true
    unfold psaSignHashStart at h ⊢
    split_ifs at h ⊢ with hbad
    · exact hflag nofun hbad
    · rfl
    all_goals exact exitStart_flag _ e _ h
  | verifyHash =>
    change (psaVerifyHashStart e operation).status ≠ .success at h
    change (psaVerifyHashStart e operation).operation.errorOccurred = true
    unfold psaVerifyHashStart at h ⊢
    split_ifs at h ⊢ with hbad
    · exact hflag nofun hbad
    · rfl
    · rfl
    all_goals exact exitStart_flag _ e _ h
  | keyAgreement =>
    change (psaKeyAgreementIopSetup e operation).status ≠ .success at h
    change (psaKeyAgreementIopSetup e operation).operation.errorOccurred = true
    unfold psaKeyAgreementIopSetup at h ⊢
    split_ifs at h ⊢ with hbad
    · exact hflag nofun hbad
    · rfl
    all_goals exact exitSetup_flag _ e _ h
  | generateKey =>
    change (psaGenerateKeyIopSetup e operation).status ≠ .success at h
    change (psaGenerateKeyIopSetup e operation).operation.errorOccurred = true
    unfold psaGenerateKeyIopSetup at h ⊢
    split_ifs at h ⊢
    all_goals exact exitGenerate_flag _ e h

theorem start_badState (kind : IopKind) (e : StartEnv) (h : operation.errorOccurred = true)
    (hecc : kind = .generateKey → e.isEcc = true) :
    (kind.start e operation).status = .errorBadState := by
  have hbad : operation.id ≠ 0 ∨ operation.errorOccurred = true := .inr h
  cases kind with
  | signHash =>
    change (psaSignHashStart e operation).status = _
    rw [psaSignHashStart, if_pos hbad]
  | verifyHash =>
    change (psaVerifyHashStart e operation).status = _
    rw [psaVerifyHashStart, if_pos hbad]
  | keyAgreement =>
    change (psaKeyAgreementIopSetup e operation).status = _
    rw [psaKeyAgreementIopSetup, if_pos hbad]
  | generateKey =>
    change (psaGenerateKeyIopSetup e operation).status = _
    rw [psaGenerateKeyIopSetup, if_neg (by rw [hecc rfl]; decide), if_pos hbad]
    rfl

theorem complete_badState (kind : IopKind) (e : CompleteEnv) (h : operation.errorOccurred = true) :
    (kind.complete e operation).status = .errorBadState := by
  have hbad : operation.id = 0 ∨ operation.errorOccurred = true := .inr h
  cases kind with
  | signHash =>
    change (psaSignHashComplete e operation).status = _
    rw [psaSignHashComplete, if_pos hbad]
    rfl
  | verifyHash =>
    change (psaVerifyHashComplete e operation).status = _
    rw [psaVerifyHashComplete, if_pos hbad]
    rfl
  | keyAgreement =>
    change (psaKeyAgreementIopComplete e operation).status = _
    rw [psaKeyAgreementIopComplete, if_pos hbad]
  | generateKey =>
    change (psaGenerateKeyIopComplete e operation).status = _
    rw [psaGenerateKeyIopComplete, if_pos hbad]

theorem isError_iff : isError status = true ↔
    status ≠ .success ∧ status ≠ .operationIncomplete := by
  simp [isError]

theorem exitComplete_spec (r : IopResult) (e : CompleteEnv) :
    (exitComplete r e).status = r.status ∧
      (isError r.status = true → (exitComplete r e).operation.errorOccurred = true) ∧
      (r.status = .success → (exitComplete r e).operation.id = 0 ∧
        (exitComplete r e).operation.errorOccurred = r.operation.errorOccurred) := by
  unfold exitComplete
  by_cases hincomplete : r.status = .operationIncomplete
  · rw [if_pos hincomplete]
    refine ⟨rfl, fun h => absurd hincomplete (isError_iff.mp h).2, fun h => ?_⟩
    rw [h] at hincomplete
    cases hincomplete
  · rw [if_neg hincomplete]
    by_cases hstatus : r.status = .success
    · have habort := abortInternal_flag r.operation e.abort
      rw [if_neg (not_not_intro hstatus)]
      exact ⟨rfl, fun h => absurd hstatus (isError_iff.mp h).1, fun _ => ⟨habort.2, habort.1⟩⟩
    · rw [if_pos hstatus]
      exact ⟨rfl, fun _ => fail_flag r.operation e.abort, fun h => absurd h hstatus⟩

theorem exitAgreement_spec (r : IopResult) (e : CompleteEnv) :
    (exitAgreement r e).status = r.status ∧
      (isError r.status = true → (exitAgreement r e).operation.errorOccurred = true) ∧
      (r.status = .success → (exitAgreement r e).operation.id = 0) := by
  unfold exitAgreement
  by_cases hincomplete : r.status = .operationIncomplete
  · rw [if_pos hincomplete]
    refine ⟨rfl, fun h => absurd hincomplete (isError_iff.mp h).2, fun h => ?_⟩
    rw [h] at hincomplete
    cases hincomplete
  · rw [if_neg hincomplete]
    exact ⟨rfl, fun _ => fail_flag r.operation e.abort, fun _ =>
      (abortInternal_flag { r.operation with errorOccurred := true } e.abort).2⟩

theorem complete_spec (kind : IopKind) (e : CompleteEnv) (operation : IopOperation)
    (hstate : kind = .keyAgreement ∨ kind = .generateKey →
      operation.id ≠ 0 ∨ operation.errorOccurred = true) :
    let r := kind.complete e operation
    (isError r.status = true → r.operation.errorOccurred = true) ∧
      (r.status = .success → r.operation.id = 0 ∧
        (kind ≠ .keyAgreement → r.operation.errorOccurred = false)) := by
  have hflag : kind = .keyAgreement ∨ kind = .generateKey →
      operation.id = 0 ∨ operation.errorOccurred = true → operation.errorOccurred = true :=
    fun hkind hbad => (hstate hkind).elim (fun hid => hbad.resolve_left hid) id
  -- three of the four functions end in the same way
  have hspec : ∀ r : IopResult, operation.errorOccurred = r.operation.errorOccurred →
      (r.status = .success → operation.errorOccurred = false) →
      (isError (exitComplete r e).status = true →
        (exitComplete r e).operation.errorOccurred = true) ∧
      ((exitComplete r e).status = .success → (exitComplete r e).operation.id = 0 ∧
        (kind ≠ .keyAgreement → (exitComplete r e).operation.errorOccurred = false)) := by
    intro r heq hclear
    obtain ⟨hstatus, herror, hsuccess⟩ := exitComplete_spec r e
    rw [hstatus]
    refine ⟨herror, fun h => ⟨(hsuccess h).1, fun _ => ?_⟩⟩
    rw [(hsuccess h).2, ← heq]
    exact hclear h
  have hclear : ¬(operation.id = 0 ∨ operation.errorOccurred = true) →
      operation.errorOccurred = false := fun h => Bool.eq_false_of_not_eq_true (not_or.mp h).2
  intro r
  cases kind with
  | signHash =>
    have hr : r = psaSignHashComplete e operation := rfl
    unfold psaSignHashComplete at hr
    split_ifs at hr with hbad <;> rw [hr]
    · exact hspec _ rfl nofun
    · exact hspec _ rfl nofun
    · exact hspec _ rfl nofun
    · exact hspec _ rfl fun _ => hclear hbad
  | verifyHash =>
    have hr : r = psaVerifyHashComplete e operation := rfl
    unfold psaVerifyHashComplete at hr
    split_ifs at hr with hbad <;> rw [hr]
    · exact hspec _ rfl nofun
    · exact hspec _ rfl fun _ => hclear hbad
  | keyAgreement =>
    have hr : r = psaKeyAgreementIopComplete e operation := rfl
    unfold psaKeyAgreementIopComplete at hr
    by_cases hbad : operation.id = 0 ∨ operation.errorOccurred = true
    · rw [if_pos hbad] at hr
      rw [hr]
      exact ⟨fun _ => hflag (.inl rfl) hbad, nofun⟩
    rw [if_neg hbad] at hr
    rw [hr]
    obtain ⟨hstatus, herror, hsuccess⟩ := exitAgreement_spec
      { status := if e.implementation = .success then e.importKey.status else e.implementation
        operation := { operation.completeImplementation e with
          numOps := (operation.completeImplementation e).implOps }
        events := [.complete e.implementation] } e
    rw [hstatus]
    exact ⟨herror, fun h => ⟨hsuccess h, fun hkind => absurd rfl hkind⟩⟩
  | generateKey =>
    have hr : r = psaGenerateKeyIopComplete e operation := rfl
    unfold psaGenerateKeyIopComplete at hr
    split_ifs at hr with hbad <;> rw [hr]
    · exact ⟨fun _ => hflag (.inr rfl) hbad, nofun⟩
    · exact hspec _ rfl fun _ => hclear hbad
    · exact hspec _ rfl fun _ => hclear hbad

def IopOperation.Cleared (operation : IopOperation) : Prop :=
  operation.id = 0 → operation.implOps = 0

theorem abortInternal_cleared (h : operation.Cleared) (status : PsaStatus) :
    (operation.abortInternal status).operation.implOps = 0 := by
  unfold abortInternal
  split
  · exact h ‹_›
  · rfl

theorem abort_eq_init (h : operation.Cleared) (status : PsaStatus) :
    (operation.abort status).operation = .init := by
  have hid := (abortInternal_flag operation status).2
  have hops := abortInternal_cleared h status
  unfold IopOperation.abort
  dsimp only
  rw [hid, hops]
  rfl

theorem fail_cleared (h : operation.Cleared) (status : PsaStatus) :
    (operation.fail status).operation.Cleared := fun _ =>
  @abortInternal_cleared { operation with errorOccurred := true } h status

theorem exitStart_cleared (h : r.operation.Cleared) (e : StartEnv) (acquired : Bool) :
    (exitStart r e acquired).operation.Cleared := by
  unfold exitStart
  dsimp only
  split_ifs
  · exact fail_cleared h e.abort
  · exact h
  · exact fail_cleared h e.abort
  · exact h

theorem exitSetup_cleared (h : r.operation.Cleared) (e : StartEnv) (acquired : Bool) :
    (exitSetup r e acquired).operation.Cleared := by
  unfold exitSetup
  by_cases hstatus : r.status = .success
  · rw [if_neg (not_not_intro hstatus)]
    split
    · exact h
    · exact h
  · rw [if_pos hstatus]
    exact fail_cleared h e.abort

theorem exitGenerate_cleared (h : r.operation.Cleared) (e : StartEnv) :
    (exitGenerate r e).operation.Cleared := by
  unfold exitGenerate
  split
  · exact fail_cleared h e.abort
  · exact h

theorem startImplementation_cleared (operation : IopOperation) (e : StartEnv) :
    (operation.startImplementation e).operation.Cleared :=
  fun h => absurd h Nat.one_ne_zero

theorem driverWrapperStart_cleared (h : operation.Cleared) (e : StartEnv) :
    (operation.driverWrapperStart e).operation.Cleared := by
  unfold driverWrapperStart
  split
  · exact startImplementation_cleared operation e
  · exact h

theorem start_cleared (kind : IopKind) (e : StartEnv) (h : operation.Cleared) :
    (kind.start e operation).operation.Cleared := by
  have hreset : { operation with numOps := 0 }.Cleared := h
  cases kind with
  | signHash =>
    change (psaSignHashStart e operation).operation.Cleared
    unfold psaSignHashStart
    split_ifs
    · exact h
    · exact h
    · exact exitStart_cleared h e _
    · exact exitStart_cleared h e _
    · exact exitStart_cleared h e _
    · exact exitStart_cleared
        (r := { { operation with numOps := 0 }.driverWrapperStart e with
          events := .acquire :: ({ operation with numOps := 0 }.driverWrapperStart e).events })
        (driverWrapperStart_cleared hreset e) e true
  | verifyHash =>
    change (psaVerifyHashStart e operation).operation.Cleared
    unfold psaVerifyHashStart
    split_ifs
    · exact h
    · exact h
    · exact h
    · exact exitStart_cleared h e _
    · exact exitStart_cleared h e _
    · exact exitStart_cleared
        (r := { { operation with numOps := 0 }.driverWrapperStart e with
          events := .acquire :: ({ operation with numOps := 0 }.driverWrapperStart e).events })
        (driverWrapperStart_cleared hreset e) e true
  | keyAgreement =>
    change (psaKeyAgreementIopSetup e operation).operation.Cleared
    unfold psaKeyAgreementIopSetup
    split_ifs
    · exact h
    · exact h
    · exact exitSetup_cleared h e _
    · exact exitSetup_cleared h e _
    · exact exitSetup_cleared h e _
    · exact exitSetup_cleared (fun h => absurd h Nat.one_ne_zero) e true
  | generateKey =>
    change (psaGenerateKeyIopSetup e operation).operation.Cleared
    unfold psaGenerateKeyIopSetup
    split_ifs
    · exact exitGenerate_cleared h e
    · exact exitGenerate_cleared h e
    · exact exitGenerate_cleared h e
    · exact exitGenerate_cleared h e
    · exact exitGenerate_cleared (startImplementation_cleared _ e) e

theorem exitComplete_cleared (h : r.operation.Cleared) (e : CompleteEnv) :
    (exitComplete r e).operation.Cleared := by
  unfold exitComplete
  by_cases hincomplete : r.status = .operationIncomplete
  · rw [if_pos hincomplete]
    exact h
  rw [if_neg hincomplete]
  split
  · exact fail_cleared h e.abort
  · exact fun _ => abortInternal_cleared h e.abort

theorem exitAgreement_cleared (h : r.operation.Cleared) (e : CompleteEnv) :
    (exitAgreement r e).operation.Cleared := by
  unfold exitAgreement
  split
  · exact h
  · exact fail_cleared h e.abort

theorem complete_cleared (kind : IopKind) (e : CompleteEnv) (h : operation.Cleared) :
    (kind.complete e operation).operation.Cleared := by
  have hactive : ¬(operation.id = 0 ∨ operation.errorOccurred = true) → ∀ n : Nat,
      { operation.completeImplementation e with numOps := n }.Cleared :=
    fun hbad _ hid => absurd hid (not_or.mp hbad).1
  cases kind with
  | signHash =>
    change (psaSignHashComplete e operation).operation.Cleared
    unfold psaSignHashComplete
    split_ifs with hbad
    · exact exitComplete_cleared h e
    · exact exitComplete_cleared h e
    · exact exitComplete_cleared h e
    · exact exitComplete_cleared (hactive hbad _) e
  | verifyHash =>
    change (psaVerifyHashComplete e operation).operation.Cleared
    unfold psaVerifyHashComplete
    split_ifs with hbad
    · exact exitComplete_cleared h e
    · exact exitComplete_cleared (hactive hbad _) e
  | keyAgreement =>
    change (psaKeyAgreementIopComplete e operation).operation.Cleared
    unfold psaKeyAgreementIopComplete
    by_cases hbad : operation.id = 0 ∨ operation.errorOccurred = true
    · rw [if_pos hbad]
      exact h
    · rw [if_neg hbad]
      exact exitAgreement_cleared (hactive hbad _) e
  | generateKey =>
    change (psaGenerateKeyIopComplete e operation).operation.Cleared
    unfold psaGenerateKeyIopComplete
    split_ifs with hbad
    · exact h
    · exact exitComplete_cleared (hactive hbad operation.numOps) e
    · exact exitComplete_cleared (hactive hbad _) e

/-! ## An inactive object -/

theorem fail_numOps (operation : IopOperation) (n : Nat) (status : PsaStatus) :
    ({ operation with numOps := n }.fail status).events = (operation.fail status).events ∧
      ({ operation with numOps := n }.fail status).operation =
        { (operation.fail status).operation with numOps := n } := by
  unfold IopOperation.fail abortInternal
  split <;> exact ⟨rfl, rfl⟩

theorem exitStart_same (operation : IopOperation) (n : Nat) (hstatus : status ≠ .success)
    (events : List IopEvent) (e : StartEnv) (acquired : Bool) :
    SameAsFresh (exitStart ⟨status, { operation with numOps := n }, events⟩ e acquired)
      (exitStart ⟨status, operation, events⟩ e acquired) := by
  obtain ⟨hevents, hfail⟩ := fail_numOps operation n e.abort
  unfold exitStart
  simp only [ne_eq, hstatus, not_false_eq_true, if_true, if_false, hevents, hfail]
  refine ⟨rfl, rfl, ?_, ?_, fun h => absurd h hstatus⟩
  · split <;> rfl
  · split <;> rfl

theorem exitSetup_same (operation : IopOperation) (n : Nat) (hstatus : status ≠ .success)
    (events : List IopEvent) (e : StartEnv) (acquired : Bool) :
    SameAsFresh (exitSetup ⟨status, { operation with numOps := n }, events⟩ e acquired)
      (exitSetup ⟨status, operation, events⟩ e acquired) := by
  obtain ⟨hevents, hfail⟩ := fail_numOps operation n e.abort
  unfold exitSetup
  simp only [ne_eq, hstatus, not_false_eq_true, if_true, hevents, hfail]
  exact ⟨rfl, rfl, rfl, rfl, fun h => absurd h hstatus⟩

theorem exitGenerate_same (operation : IopOperation) (n : Nat) (hstatus : status ≠ .success)
    (events : List IopEvent) (e : StartEnv) :
    SameAsFresh (exitGenerate ⟨status, { operation with numOps := n }, events⟩ e)
      (exitGenerate ⟨status, operation, events⟩ e) := by
  obtain ⟨hevents, hfail⟩ := fail_numOps operation n e.abort
  unfold exitGenerate
  simp only [ne_eq, hstatus, not_false_eq_true, if_true, hevents, hfail]
  exact ⟨rfl, rfl, rfl, rfl, fun h => absurd h hstatus⟩

theorem start_same (kind : IopKind) (e : StartEnv) (n : Nat) :
    SameAsFresh (kind.start e { IopOperation.init with numOps := n }) (kind.start e .init) := by
  have hrefl : ∀ r : IopResult, SameAsFresh r r := fun r => ⟨rfl, rfl, rfl, rfl, fun _ => rfl⟩
  have hidle : ¬(({ IopOperation.init with numOps := n }).id ≠ 0 ∨
      ({ IopOperation.init with numOps := n }).errorOccurred = true) := by
    rintro (h | h)
    · exact h rfl
    · cases h
  have hidle₀ : ¬(IopOperation.init.id ≠ 0 ∨ IopOperation.init.errorOccurred = true) := by
    decide
  cases kind with
  | signHash =>
    change SameAsFresh (psaSignHashStart e _) (psaSignHashStart e _)
    unfold psaSignHashStart
    rw [if_neg hidle, if_neg hidle₀]
    split_ifs with h1 h2
    · exact ⟨rfl, rfl, rfl, rfl, fun h => absurd h h1⟩
    · exact exitStart_same .init n h2 _ e _
    · refine exitStart_same .init n ?_ _ e _
      nofun
    · refine exitStart_same .init n ?_ _ e _
      nofun
    · exact hrefl _
  | verifyHash =>
    change SameAsFresh (psaVerifyHashStart e _) (psaVerifyHashStart e _)
    unfold psaVerifyHashStart
    rw [if_neg hidle, if_neg hidle₀]
    split_ifs with h1 h2
    · exact ⟨rfl, rfl, rfl, rfl, fun h => absurd h h1⟩
    · exact ⟨rfl, rfl, rfl, rfl, fun h => absurd h h2⟩
    · refine exitStart_same .init n ?_ _ e _
      nofun
    · refine exitStart_same .init n ?_ _ e _
      nofun
    · exact hrefl _
  | keyAgreement =>
    change SameAsFresh (psaKeyAgreementIopSetup e _) (psaKeyAgreementIopSetup e _)
    unfold psaKeyAgreementIopSetup
    rw [if_neg hidle, if_neg hidle₀]
    split_ifs with h1 h2
    · exact ⟨rfl, rfl, rfl, rfl, fun h => absurd h h1⟩
    · exact exitSetup_same .init n h2 _ e _
    · refine exitSetup_same .init n ?_ _ e _
      nofun
    · refine exitSetup_same .init n ?_ _ e _
      nofun
    · exact hrefl _
  | generateKey =>
    change SameAsFresh (psaGenerateKeyIopSetup e _) (psaGenerateKeyIopSetup e _)
    unfold psaGenerateKeyIopSetup
    rw [if_neg hidle, if_neg hidle₀]
    split_ifs
    · refine exitGenerate_same .init n ?_ _ e
      nofun
    · refine exitGenerate_same .init n ?_ _ e
      nofun
    · refine exitGenerate_same .init n ?_ _ e
      nofun
    · exact hrefl _

/-! ## Runs -/

structure LifeInv (kind : IopKind) (operation : IopOperation) (life : Life) : Prop where
  cleared : operation.Cleared
  failed : life.failed = true → operation.errorOccurred = true
  completed : life.completed = true →
    operation.id = 0 ∧ (kind ≠ .keyAgreement → operation.errorOccurred = false)

theorem LifeInv.step {kind : IopKind} {life : Life} {call : IopCall}
    (h : LifeInv kind operation life) (hregular : Regular kind operation life call) :
    LifeStep kind operation life call ∧ LifeInv kind (kind.call operation call).operation
      (life.next call (kind.call operation call).status) := by
  cases call with
  | start e =>
    have hactive : kind ≠ .generateKey → operation.id = 0 ∨ operation.errorOccurred = true := by
      intro hkind
      cases kind with
      | signHash => exact hregular
      | verifyHash => exact hregular
      | keyAgreement => exact hregular.1
      | generateKey => exact absurd rfl hkind
    have hecc : life.failed = true → kind = .generateKey → e.isEcc = true := by
      rintro hfailed rfl
      exact hregular hfailed
    have hbad := fun hfailed => start_badState kind e (h.failed hfailed) (hecc hfailed)
    refine ⟨⟨fun hfailed _ => hbad hfailed, ?_, fun _ hcall => IopCall.noConfusion hcall⟩,
      start_cleared kind e h.cleared, fun hnext => ?_, fun hnext => Bool.noConfusion hnext⟩
    · rintro hcompleted e' he
      cases he
      have hkind : kind ≠ .keyAgreement := by
        rintro rfl
        rw [hregular.2] at hcompleted
        cases hcompleted
      obtain ⟨hid, hflag⟩ := h.completed hcompleted
      have heq : operation = { IopOperation.init with numOps := operation.numOps } := by
        have hops := h.cleared hid
        have hflag := hflag hkind
        obtain ⟨i, f, n, o⟩ := operation
        cases hid
        cases hflag
        cases hops
        rfl
      rw [heq]
      exact start_same kind e _
    · refine start_flag kind e operation hactive fun hsuccess => ?_
      rcases Bool.or_eq_true_iff.mp hnext with hfailed | herror
      · rw [hbad hfailed] at hsuccess
        cases hsuccess
      · exact (isError_iff.mp herror).1 hsuccess
  | complete e =>
    have hactive : kind = .keyAgreement ∨ kind = .generateKey →
        operation.id ≠ 0 ∨ operation.errorOccurred = true := by
      rintro (rfl | rfl)
      · exact hregular
      · exact hregular
    have hbad := fun hfailed => complete_badState kind e (h.failed hfailed)
    obtain ⟨herror, hsuccess⟩ := complete_spec kind e operation hactive
    refine ⟨⟨fun hfailed _ => hbad hfailed, fun _ _ hcall => IopCall.noConfusion hcall,
        fun _ hcall => IopCall.noConfusion hcall⟩, complete_cleared kind e h.cleared,
      fun hnext => ?_, fun hnext => hsuccess (of_decide_eq_true hnext)⟩
    rcases Bool.or_eq_true_iff.mp hnext with hfailed | hfailed
    · refine herror ?_
      rw [hbad hfailed]
      rfl
    · exact herror hfailed
  | getNumOps =>
    refine ⟨⟨fun _ hcall => ?_, fun _ _ hcall => IopCall.noConfusion hcall,
      fun _ hcall => IopCall.noConfusion hcall⟩, h⟩
    rcases hcall with ⟨_, hcall⟩ | ⟨_, hcall⟩ <;> cases hcall
  | abort status =>
    have hinit := abort_eq_init h.cleared status
    refine ⟨⟨fun _ hcall => ?_, fun _ _ hcall => IopCall.noConfusion hcall,
      fun status' hcall => ?_⟩, ?_⟩
    · rcases hcall with ⟨_, hcall⟩ | ⟨_, hcall⟩ <;> cases hcall
    · cases hcall
      exact hinit
    · change LifeInv kind (operation.abort status).operation .fresh
      rw [hinit]
      exact ⟨fun _ => rfl, nofun, nofun⟩

end TfPsaCrypto.Interruptible
