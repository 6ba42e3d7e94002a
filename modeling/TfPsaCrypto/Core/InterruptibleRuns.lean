import TfPsaCrypto.Core.Interruptible
import TfPsaCrypto.Library.History

/-!
# The order of calls of an interruptible operation

What reaches the implementation and the key store in a run of calls on one object, and the life
cycle that the callers see.
-/

namespace TfPsaCrypto.Interruptible

open IopOperation History

/-! ## Phases of the implementation -/

inductive Phase where
  | idle
  | running
  | ended
  deriving DecidableEq, Repr

/-- The phase after an event; `none` where the event is out of order. -/
def Phase.next : Phase → IopEvent → Option Phase
  | .idle, .start status => some (if status = .success then .running else .ended)
  | .running, .complete status =>
    some (if status = .operationIncomplete then .running else .ended)
  | .running, .abort => some .idle
  | .ended, .abort => some .idle
  | p, .acquire => some p
  | p, .release => some p
  | _, _ => none

def IopOperation.phase (operation : IopOperation) : Phase :=
  if operation.id = 0 then .idle else .running

/-- The phase `q` is one in which an object with this identifier can be. -/
def Phase.Fits (q : Phase) (operation : IopOperation) : Prop := q = .idle ↔ operation.id = 0

variable {operation : IopOperation} {r : IopResult} {p q : Phase} {status : PsaStatus}

theorem phase_fits (operation : IopOperation) : operation.phase.Fits operation := by
  unfold IopOperation.phase Phase.Fits
  split <;> simp [*]

theorem Phase.Fits.idle (h : q.Fits operation) (hid : operation.id = 0) : q = .idle := h.mpr hid

theorem phase_of_id (h : operation.id = 0) : operation.phase = .idle := if_pos h

theorem phase_of_ne (h : operation.id ≠ 0) : operation.phase = .running := if_neg h

theorem abortInternal_phases (h : q.Fits operation) (status : PsaStatus) :
    (operation.abortInternal status).events.foldlM Phase.next q = some .idle ∧
      (operation.abortInternal status).operation.id = 0 := by
  unfold abortInternal
  by_cases hid : operation.id = 0
  · rw [if_pos hid, h.idle hid]
    exact ⟨rfl, hid⟩
  rw [if_neg hid]
  refine ⟨?_, rfl⟩
  cases q with
  | idle => exact absurd (h.mp rfl) hid
  | running => rfl
  | ended => rfl

theorem fail_phases (h : q.Fits operation) (status : PsaStatus) :
    (operation.fail status).events.foldlM Phase.next q = some .idle ∧
      (operation.fail status).operation.id = 0 :=
  @abortInternal_phases { operation with errorOccurred := true } q h status

/-- The events of a call lead from the phase `p` to that of the object that it leaves. -/
def Leads (p : Phase) (r : IopResult) : Prop :=
  r.events.foldlM Phase.next p = some r.operation.phase

def LeadsTo (p : Phase) (r : IopResult) : Prop :=
  ∃ q : Phase, r.events.foldlM Phase.next p = some q ∧ q.Fits r.operation ∧
    (r.status = .success → q = r.operation.phase)

theorem foldlM_append_some {l l' : List IopEvent} (h : l.foldlM Phase.next p = some q) :
    (l ++ l').foldlM Phase.next p = l'.foldlM Phase.next q := by
  rw [List.foldlM_append, h]
  rfl

theorem foldlM_release (q : Phase) (acquired : Bool) :
    (if acquired then [IopEvent.release] else []).foldlM Phase.next q = some q := by
  cases acquired <;> cases q <;> rfl

theorem exitStart_leads (h : LeadsTo p r) (e : StartEnv) (acquired : Bool) :
    Leads p (exitStart r e acquired) := by
  obtain ⟨q, hq, hfits, hsuccess⟩ := h
  unfold exitStart Leads
  dsimp only
  by_cases hstatus : r.status = .success
  · have hne : ¬ r.status ≠ .success := not_not_intro hstatus
    rw [if_neg hne, if_neg hne, foldlM_append_some hq, foldlM_release, hsuccess hstatus]
    split <;> rfl
  obtain ⟨hfail, hid⟩ := fail_phases hfits e.abort
  rw [if_pos hstatus, if_pos hstatus, foldlM_append_some ((foldlM_append_some hq).trans hfail),
    foldlM_release]
  split
  · exact congrArg some (phase_of_id hid).symm
  · exact congrArg some (phase_of_id hid).symm

theorem exitSetup_leads (h : LeadsTo p r) (e : StartEnv) (acquired : Bool) :
    Leads p (exitSetup r e acquired) := by
  obtain ⟨q, hq, hfits, hsuccess⟩ := h
  unfold exitSetup Leads
  by_cases hstatus : r.status = .success
  · rw [if_neg (not_not_intro hstatus)]
    rw [foldlM_append_some hq, foldlM_release, hsuccess hstatus]
    split <;> rfl
  · obtain ⟨hfail, hid⟩ := fail_phases hfits e.abort
    rw [if_pos hstatus]
    rw [foldlM_append_some ((foldlM_append_some hq).trans (foldlM_release _ _)), hfail,
      phase_of_id hid]

theorem exitComplete_leads (e : CompleteEnv) (hq : r.events.foldlM Phase.next p = some q)
    (hfits : q.Fits r.operation)
    (hincomplete : r.status = .operationIncomplete → q = r.operation.phase) :
    Leads p (exitComplete r e) := by
  unfold exitComplete
  by_cases hstatus : r.status = .operationIncomplete
  · rw [if_pos hstatus, Leads, hq, hincomplete hstatus]
  rw [if_neg hstatus]
  dsimp only [Leads]
  have habort := @abortInternal_phases
    (if r.status ≠ .success then { r.operation with errorOccurred := true } else r.operation) q
    (by split <;> exact hfits) e.abort
  rw [foldlM_append_some hq, habort.1, phase_of_id habort.2]

theorem leadsTo_nil : LeadsTo operation.phase
    { status := status, operation := operation, events := [] } :=
  ⟨_, rfl, phase_fits operation, fun _ => rfl⟩

theorem leadsTo_acquire : LeadsTo operation.phase
    { status := status, operation := operation, events := [.acquire] } := by
  refine ⟨operation.phase, ?_, phase_fits operation, fun _ => rfl⟩
  cases operation.phase <;> rfl

theorem LeadsTo.acquire (h : LeadsTo p r) :
    LeadsTo p { r with events := .acquire :: r.events } := by
  obtain ⟨q, hq, hrest⟩ := h
  refine ⟨q, ?_, hrest⟩
  rw [← hq]
  cases p <;> rfl

theorem startImplementation_leads (hid : operation.id = 0) (e : StartEnv) :
    LeadsTo operation.phase (operation.startImplementation e) := by
  rw [phase_of_id hid]
  refine ⟨if e.implementation = .success then .running else .ended, rfl, ?_, fun h => if_pos h⟩
  split
  · exact ⟨nofun, nofun⟩
  · exact ⟨nofun, nofun⟩

theorem driverWrapperStart_leads (hid : operation.id = 0) (e : StartEnv) :
    LeadsTo operation.phase (operation.driverWrapperStart e) := by
  unfold driverWrapperStart
  split
  · exact startImplementation_leads hid e
  · exact leadsTo_nil

theorem leads_nil {flag : Bool} : Leads operation.phase
    { status := status, operation := { operation with errorOccurred := flag }, events := [] } := rfl

theorem LeadsTo.withNumOps (h : LeadsTo p r) (n : Nat) :
    LeadsTo p { r with operation := { r.operation with numOps := n } } := h

theorem psaSignHashStart_leads (e : StartEnv) (operation : IopOperation) :
    Leads operation.phase (psaSignHashStart e operation) := by
  unfold psaSignHashStart
  split_ifs with hstate
  · exact leads_nil
  · exact leads_nil
  · exact exitStart_leads leadsTo_nil e false
  · exact exitStart_leads leadsTo_acquire e true
  · exact exitStart_leads leadsTo_acquire e true
  · have hid : operation.id = 0 := not_not.mp (not_or.mp hstate).1
    exact exitStart_leads
      (@driverWrapperStart_leads { operation with numOps := 0 } hid e).acquire e true

theorem psaVerifyHashStart_leads (e : StartEnv) (operation : IopOperation) :
    Leads operation.phase (psaVerifyHashStart e operation) := by
  unfold psaVerifyHashStart
  split_ifs with hstate
  · exact leads_nil
  · exact leads_nil
  · exact leads_nil
  · exact exitStart_leads leadsTo_acquire e true
  · exact exitStart_leads leadsTo_acquire e true
  · have hid : operation.id = 0 := not_not.mp (not_or.mp hstate).1
    exact exitStart_leads
      (@driverWrapperStart_leads { operation with numOps := 0 } hid e).acquire e true

theorem psaKeyAgreementIopSetup_leads (e : StartEnv) (operation : IopOperation) :
    Leads operation.phase (psaKeyAgreementIopSetup e operation) := by
  unfold psaKeyAgreementIopSetup
  split_ifs with hstate
  · exact leads_nil
  · exact leads_nil
  · exact exitSetup_leads leadsTo_nil e false
  · refine exitSetup_leads ⟨operation.phase, ?_, phase_fits operation, fun _ => rfl⟩ e false
    cases operation.phase <;> rfl
  · exact exitSetup_leads leadsTo_acquire e true
  · have hid : operation.id = 0 := not_not.mp (not_or.mp hstate).1
    exact exitSetup_leads ((@startImplementation_leads
      { operation with numOps := 0 } hid e).acquire.withNumOps e.ops) e true

theorem exitGenerate_leads (h : LeadsTo p r) (e : StartEnv) : Leads p (exitGenerate r e) := by
  obtain ⟨q, hq, hfits, hsuccess⟩ := h
  unfold exitGenerate
  by_cases hstatus : r.status = .success
  · rw [if_neg (not_not_intro hstatus), Leads, hq, hsuccess hstatus]
  · obtain ⟨hfail, hid⟩ := fail_phases hfits e.abort
    rw [if_pos hstatus]
    dsimp only [Leads]
    rw [foldlM_append_some hq, hfail, phase_of_id hid]

theorem psaGenerateKeyIopSetup_leads (e : StartEnv) (operation : IopOperation) :
    Leads operation.phase (psaGenerateKeyIopSetup e operation) := by
  unfold psaGenerateKeyIopSetup
  split_ifs with _ hstate
  · exact exitGenerate_leads leadsTo_nil e
  · exact exitGenerate_leads leadsTo_nil e
  · exact exitGenerate_leads leadsTo_nil e
  · exact exitGenerate_leads leadsTo_nil e
  · have hid : operation.id = 0 := not_not.mp (not_or.mp hstate).1
    exact exitGenerate_leads (@startImplementation_leads { operation with numOps := 0 } hid e) e

theorem complete_phases (hid : operation.id ≠ 0) (status : PsaStatus) :
    [IopEvent.complete status].foldlM Phase.next operation.phase =
      some (if status = .operationIncomplete then .running else .ended) := by
  rw [phase_of_ne hid]
  rfl

theorem complete_fits (hid : operation.id ≠ 0) (status : PsaStatus) :
    (if status = PsaStatus.operationIncomplete then Phase.running else .ended).Fits operation := by
  split
  · exact ⟨nofun, fun h => absurd h hid⟩
  · exact ⟨nofun, fun h => absurd h hid⟩

theorem exitComplete_nil (e : CompleteEnv) (hstatus : status ≠ .operationIncomplete) :
    Leads operation.phase
      (exitComplete { status := status, operation := operation, events := [] } e) :=
  exitComplete_leads e rfl (phase_fits operation) fun h => absurd h hstatus

/-- An implementation that has finished is aborted; `next` differs from the object in the number of
ops. -/
theorem exitComplete_complete {next : IopOperation} (e : CompleteEnv) (hid : operation.id ≠ 0)
    (hnext : next.id = operation.id)
    (hstatus : status = .operationIncomplete → e.implementation = .operationIncomplete) :
    Leads operation.phase
      (exitComplete
        { status := status, operation := next, events := [.complete e.implementation] } e) := by
  have hne : next.id ≠ 0 := hnext ▸ hid
  refine exitComplete_leads e (complete_phases hid e.implementation)
    (complete_fits hne e.implementation) fun h => ?_
  rw [if_pos (hstatus h)]
  exact (phase_of_ne hne).symm

theorem psaSignHashComplete_leads (e : CompleteEnv) (operation : IopOperation) :
    Leads operation.phase (psaSignHashComplete e operation) := by
  unfold psaSignHashComplete
  split_ifs with hstate
  · exact exitComplete_nil e nofun
  · exact exitComplete_nil e nofun
  · exact exitComplete_nil e nofun
  · exact exitComplete_complete e (not_or.mp hstate).1 rfl id

theorem psaVerifyHashComplete_leads (e : CompleteEnv) (operation : IopOperation) :
    Leads operation.phase (psaVerifyHashComplete e operation) := by
  unfold psaVerifyHashComplete
  split_ifs with hstate
  · exact exitComplete_nil e nofun
  · exact exitComplete_complete e (not_or.mp hstate).1 rfl id

theorem exitAgreement_leads (e : CompleteEnv) (hq : r.events.foldlM Phase.next p = some q)
    (hfits : q.Fits r.operation)
    (hincomplete : r.status = .operationIncomplete → q = r.operation.phase) :
    Leads p (exitAgreement r e) := by
  unfold exitAgreement
  by_cases hstatus : r.status = .operationIncomplete
  · rw [if_pos hstatus, Leads, hq, hincomplete hstatus]
  · obtain ⟨hfail, hid⟩ := fail_phases hfits e.abort
    rw [if_neg hstatus]
    dsimp only [Leads]
    rw [foldlM_append_some hq, hfail, phase_of_id hid]

theorem psaKeyAgreementIopComplete_leads (e : CompleteEnv) (operation : IopOperation) :
    Leads operation.phase (psaKeyAgreementIopComplete e operation) := by
  unfold psaKeyAgreementIopComplete
  by_cases hstate : operation.id = 0 ∨ operation.errorOccurred = true
  · rw [if_pos hstate]
    exact leads_nil
  have hid : operation.id ≠ 0 := (not_or.mp hstate).1
  rw [if_neg hstate]
  refine exitAgreement_leads e (complete_phases hid e.implementation)
    (complete_fits hid e.implementation) fun hstatus => ?_
  have hincomplete : e.implementation = .operationIncomplete := by
    split at hstatus
    · exact absurd hstatus e.importKey.ne_incomplete
    · exact hstatus
  rw [if_pos hincomplete]
  exact (phase_of_ne hid).symm

theorem psaGenerateKeyIopComplete_leads (e : CompleteEnv) (operation : IopOperation) :
    Leads operation.phase (psaGenerateKeyIopComplete e operation) := by
  unfold psaGenerateKeyIopComplete
  split_ifs with hstate hstatus
  · exact leads_nil
  · exact exitComplete_complete e (not_or.mp hstate).1 rfl id
  · exact exitComplete_complete e (not_or.mp hstate).1 rfl
      fun h => absurd h e.importKey.ne_incomplete

/-! ## The order of the events -/

def IopEvent.isStart : IopEvent → Bool
  | .start _ => true
  | _ => false

def IopEvent.isReader : IopEvent → Bool
  | .acquire => true
  | .release => true
  | _ => false

/-- Before a start, every start has been followed by its abort; before an abort, every start but the
last. A continuation follows a start that succeeded and continuations that were incomplete. -/
def InOrder (pre : List IopEvent) : IopEvent → Prop
  | .start _ => pre.countP IopEvent.isStart = pre.count .abort
  | .abort => pre.countP IopEvent.isStart = pre.count .abort + 1
  | .complete _ => ∃ l mid, pre = l ++ .start .success :: mid ∧
      ∀ e ∈ mid, e = .complete .operationIncomplete ∨ e.isReader = true
  | _ => True

variable {log : List IopEvent}

theorem foldlM_snoc {e : IopEvent} (h : (log ++ [e]).foldlM Phase.next p = some q) :
    ∃ q', log.foldlM Phase.next p = some q' ∧ q'.next e = some q := by
  rw [List.foldlM_append] at h
  obtain ⟨q', hq', he⟩ := Option.bind_eq_some_iff.mp h
  refine ⟨q', hq', ?_⟩
  rw [List.foldlM_cons] at he
  obtain ⟨q'', hq'', hpure⟩ := Option.bind_eq_some_iff.mp he
  cases hpure
  exact hq''

theorem phases_count (h : log.foldlM Phase.next .idle = some q) :
    log.countP IopEvent.isStart = log.count .abort + if q = .idle then 0 else 1 := by
  induction log using List.reverseRecOn generalizing q with
  | nil =>
    cases h
    rfl
  | append_singleton log e ih =>
    obtain ⟨q', hq', he⟩ := foldlM_snoc h
    have ih := ih hq'
    rw [List.countP_append, List.count_append, ih]
    cases q' <;> cases e <;> cases he
    all_goals first | rfl | skip
    all_goals
      rename_i status
      by_cases hstatus : status = .success <;>
        by_cases hincomplete : status = .operationIncomplete <;>
          simp [hstatus, hincomplete, IopEvent.isStart]

theorem phases_running (h : log.foldlM Phase.next .idle = some .running) :
    ∃ l mid, log = l ++ .start .success :: mid ∧
      ∀ e ∈ mid, e = .complete .operationIncomplete ∨ e.isReader = true := by
  induction log using List.reverseRecOn with
  | nil => cases h
  | append_singleton log e ih =>
    obtain ⟨q', hq', he⟩ := foldlM_snoc h
    have hmore : q' = .running → (e = .complete .operationIncomplete ∨ e.isReader = true) →
        ∃ l mid, log ++ [e] = l ++ .start .success :: mid ∧
          ∀ e ∈ mid, e = .complete .operationIncomplete ∨ e.isReader = true := by
      rintro rfl hkind
      obtain ⟨l, mid, rfl, hmid⟩ := ih hq'
      refine ⟨l, mid ++ [e], by simp, fun e' he' => ?_⟩
      rcases List.mem_append.mp he' with he' | he'
      · exact hmid e' he'
      · exact List.mem_singleton.mp he' ▸ hkind
    cases q' with
    | idle =>
      cases e with
      | start status =>
        by_cases hstatus : status = .success
        · exact ⟨log, [], hstatus ▸ rfl, nofun⟩
        · simp [Phase.next, hstatus] at he
      | _ => cases he
    | running =>
      cases e with
      | complete status =>
        by_cases hstatus : status = .operationIncomplete
        · exact hmore rfl (.inl (hstatus ▸ rfl))
        · simp [Phase.next, hstatus] at he
      | acquire => exact hmore rfl (.inr rfl)
      | release => exact hmore rfl (.inr rfl)
      | _ => cases he
    | ended => cases e <;> cases he

theorem each_inOrder (h : log.foldlM Phase.next .idle = some q) : Each InOrder log := by
  induction log using List.reverseRecOn generalizing q with
  | nil => exact each_nil
  | append_singleton log e ih =>
    obtain ⟨q', hq', he⟩ := foldlM_snoc h
    refine each_append_singleton.mpr ⟨ih hq', ?_⟩
    have hcount := phases_count hq'
    cases e with
    | start status =>
      cases q' with
      | idle => exact hcount
      | _ => cases he
    | abort =>
      cases q' with
      | idle => cases he
      | _ => exact hcount
    | complete status =>
      cases q' with
      | running => exact phases_running hq'
      | _ => cases he
    | acquire => trivial
    | release => trivial

/-! ## Readers and ops -/

def IopOperation.OpsInv (operation : IopOperation) : Prop :=
  operation.id ≠ 0 → operation.numOps ≤ operation.implOps

theorem abortInternal_readers (operation : IopOperation) (status : PsaStatus) :
    (operation.abortInternal status).events.filter IopEvent.isReader = [] := by
  unfold abortInternal
  split <;> rfl

theorem filter_release (acquired : Bool) :
    (if acquired then [IopEvent.release] else []).filter IopEvent.isReader =
      if acquired then [IopEvent.release] else [] := by
  cases acquired <;> rfl

theorem exitStart_readers (r : IopResult) (e : StartEnv) (acquired : Bool) :
    (exitStart r e acquired).events.filter IopEvent.isReader =
      r.events.filter IopEvent.isReader ++ if acquired then [.release] else [] := by
  unfold exitStart
  rw [List.filter_append, filter_release]
  split
  · rw [List.filter_append, IopOperation.fail, abortInternal_readers, List.append_nil]
  · rfl

theorem exitSetup_readers (r : IopResult) (e : StartEnv) (acquired : Bool) :
    (exitSetup r e acquired).events.filter IopEvent.isReader =
      r.events.filter IopEvent.isReader ++ if acquired then [.release] else [] := by
  unfold exitSetup
  dsimp only
  split
  · rw [List.filter_append, List.filter_append, filter_release, IopOperation.fail,
      abortInternal_readers, List.append_nil]
  · rw [List.filter_append, filter_release]

theorem exitComplete_readers (r : IopResult) (e : CompleteEnv) :
    (exitComplete r e).events.filter IopEvent.isReader = r.events.filter IopEvent.isReader := by
  unfold exitComplete
  split
  · rfl
  · dsimp only
    rw [List.filter_append, abortInternal_readers, List.append_nil]

theorem exitAgreement_readers (r : IopResult) (e : CompleteEnv) :
    (exitAgreement r e).events.filter IopEvent.isReader = r.events.filter IopEvent.isReader := by
  unfold exitAgreement
  split
  · rfl
  · dsimp only
    rw [List.filter_append, IopOperation.fail, abortInternal_readers, List.append_nil]

def Balanced (r : IopResult) : Prop :=
  r.events.filter IopEvent.isReader = [] ∨ r.events.filter IopEvent.isReader = [.acquire, .release]

theorem driverWrapperStart_readers (operation : IopOperation) (e : StartEnv) :
    (operation.driverWrapperStart e).events.filter IopEvent.isReader = [] := by
  unfold driverWrapperStart
  split <;> rfl

theorem start_balanced (kind : IopKind) (e : StartEnv) (operation : IopOperation) :
    Balanced (kind.start e operation) := by
  cases kind with
  | signHash =>
    show Balanced (psaSignHashStart e operation)
    unfold psaSignHashStart
    split_ifs
    · exact .inl rfl
    · exact .inl rfl
    · exact .inl (exitStart_readers _ e false)
    · exact .inr (exitStart_readers _ e true)
    · exact .inr (exitStart_readers _ e true)
    · refine .inr ((exitStart_readers _ e true).trans ?_)
      exact congrArg (fun l => IopEvent.acquire :: (l ++ [.release]))
        (driverWrapperStart_readers _ e)
  | verifyHash =>
    show Balanced (psaVerifyHashStart e operation)
    unfold psaVerifyHashStart
    split_ifs
    · exact .inl rfl
    · exact .inl rfl
    · exact .inl rfl
    · exact .inr (exitStart_readers _ e true)
    · exact .inr (exitStart_readers _ e true)
    · refine .inr ((exitStart_readers _ e true).trans ?_)
      exact congrArg (fun l => IopEvent.acquire :: (l ++ [.release]))
        (driverWrapperStart_readers _ e)
  | keyAgreement =>
    show Balanced (psaKeyAgreementIopSetup e operation)
    unfold psaKeyAgreementIopSetup
    split_ifs
    · exact .inl rfl
    · exact .inl rfl
    · exact .inl (exitSetup_readers _ e false)
    · exact .inr (exitSetup_readers _ e false)
    · exact .inr (exitSetup_readers _ e true)
    · exact .inr (exitSetup_readers _ e true)
  | generateKey =>
    have hexit : ∀ r : IopResult, r.events.filter IopEvent.isReader = [] →
        Balanced (exitGenerate r e) := by
      intro r hr
      unfold exitGenerate
      split
      · left
        rw [List.filter_append, IopOperation.fail, abortInternal_readers, hr, List.append_nil]
      · exact .inl hr
    show Balanced (psaGenerateKeyIopSetup e operation)
    unfold psaGenerateKeyIopSetup
    split_ifs <;> exact hexit _ rfl

theorem complete_balanced (kind : IopKind) (e : CompleteEnv) (operation : IopOperation) :
    Balanced (kind.complete e operation) := by
  left
  cases kind with
  | signHash =>
    show (psaSignHashComplete e operation).events.filter IopEvent.isReader = []
    unfold psaSignHashComplete
    split_ifs <;> exact exitComplete_readers _ e
  | verifyHash =>
    show (psaVerifyHashComplete e operation).events.filter IopEvent.isReader = []
    unfold psaVerifyHashComplete
    split_ifs <;> exact exitComplete_readers _ e
  | keyAgreement =>
    show (psaKeyAgreementIopComplete e operation).events.filter IopEvent.isReader = []
    unfold psaKeyAgreementIopComplete
    split
    · rfl
    · exact exitAgreement_readers _ e
  | generateKey =>
    show (psaGenerateKeyIopComplete e operation).events.filter IopEvent.isReader = []
    unfold psaGenerateKeyIopComplete
    split_ifs
    · rfl
    · exact exitComplete_readers _ e
    · exact exitComplete_readers _ e

theorem abortInternal_ops (h : operation.OpsInv) (status : PsaStatus) :
    (operation.abortInternal status).operation.OpsInv ∧
      (operation.abortInternal status).operation.numOps = operation.numOps := by
  unfold abortInternal
  split
  · exact ⟨h, rfl⟩
  · exact ⟨fun hid => absurd rfl hid, rfl⟩

theorem exitStart_opsInv (h : r.operation.OpsInv) (e : StartEnv) (acquired : Bool) :
    (exitStart r e acquired).operation.OpsInv := by
  have hfail : (r.operation.fail e.abort).operation.OpsInv :=
    (@abortInternal_ops { r.operation with errorOccurred := true } h e.abort).1
  unfold exitStart
  dsimp only
  split_ifs
  · exact hfail
  · exact h
  · exact hfail
  · exact h

theorem exitSetup_opsInv (h : r.operation.OpsInv) (e : StartEnv) (acquired : Bool) :
    (exitSetup r e acquired).operation.OpsInv := by
  unfold exitSetup
  by_cases hstatus : r.status = .success
  · rw [if_neg (not_not_intro hstatus)]
    split
    · exact h
    · exact h
  · rw [if_pos hstatus]
    exact (@abortInternal_ops
      { r.operation with errorOccurred := true } h e.abort).1

theorem startImplementation_opsInv (operation : IopOperation) (e : StartEnv) :
    ({ operation with numOps := 0 }.startImplementation e).operation.OpsInv :=
  fun _ => Nat.zero_le _

theorem driverWrapperStart_opsInv (operation : IopOperation) (e : StartEnv) :
    ({ operation with numOps := 0 }.driverWrapperStart e).operation.OpsInv := by
  unfold driverWrapperStart
  split <;> exact fun _ => Nat.zero_le _

theorem start_opsInv (kind : IopKind) (e : StartEnv) (h : operation.OpsInv) :
    (kind.start e operation).operation.OpsInv := by
  cases kind with
  | signHash =>
    show (psaSignHashStart e operation).operation.OpsInv
    unfold psaSignHashStart
    split_ifs
    · exact h
    · exact h
    all_goals first
      | exact exitStart_opsInv h e _
      | exact exitStart_opsInv (driverWrapperStart_opsInv operation e) e true
  | verifyHash =>
    show (psaVerifyHashStart e operation).operation.OpsInv
    unfold psaVerifyHashStart
    split_ifs
    · exact h
    · exact h
    · exact h
    all_goals first
      | exact exitStart_opsInv h e _
      | exact exitStart_opsInv (driverWrapperStart_opsInv operation e) e true
  | keyAgreement =>
    show (psaKeyAgreementIopSetup e operation).operation.OpsInv
    unfold psaKeyAgreementIopSetup
    split_ifs
    · exact h
    · exact h
    all_goals first
      | exact exitSetup_opsInv h e _
      | exact exitSetup_opsInv (fun _ => Nat.le_refl _) e true
  | generateKey =>
    have hexit : ∀ r : IopResult, r.operation.OpsInv → (exitGenerate r e).operation.OpsInv := by
      intro r hr
      unfold exitGenerate
      split
      · exact (@abortInternal_ops
          { r.operation with errorOccurred := true } hr e.abort).1
      · exact hr
    show (psaGenerateKeyIopSetup e operation).operation.OpsInv
    unfold psaGenerateKeyIopSetup
    split_ifs
    all_goals first
      | exact hexit _ h
      | exact hexit _ (startImplementation_opsInv operation e)

theorem exitComplete_ops (h : r.operation.OpsInv) (e : CompleteEnv) :
    (exitComplete r e).operation.OpsInv ∧
      (exitComplete r e).operation.numOps = r.operation.numOps := by
  unfold exitComplete
  split
  · exact ⟨h, rfl⟩
  · dsimp only
    split
    · exact @abortInternal_ops { r.operation with errorOccurred := true } h e.abort
    · exact abortInternal_ops h e.abort

theorem exitAgreement_ops (h : r.operation.OpsInv) (e : CompleteEnv) :
    (exitAgreement r e).operation.OpsInv ∧
      (exitAgreement r e).operation.numOps = r.operation.numOps := by
  unfold exitAgreement
  split
  · exact ⟨h, rfl⟩
  · exact @abortInternal_ops { r.operation with errorOccurred := true } h e.abort

theorem completeImplementation_le (h : operation.OpsInv) (e : CompleteEnv)
    (hid : operation.id ≠ 0) : operation.numOps ≤ (operation.completeImplementation e).implOps :=
  Nat.le_trans (h hid) (Nat.le_add_right _ _)

theorem complete_ops (kind : IopKind) (e : CompleteEnv) (h : operation.OpsInv) :
    (kind.complete e operation).operation.OpsInv ∧
      operation.numOps ≤ (kind.complete e operation).operation.numOps := by
  -- the early returns leave the number of ops, the others read it from the implementation
  have hnil : ∀ status, (exitComplete { status := status, operation := operation, events := [] }
        e).operation.OpsInv ∧ operation.numOps ≤
      (exitComplete { status := status, operation := operation, events := [] }
        e).operation.numOps := by
    intro status
    obtain ⟨hinv, heq⟩ := exitComplete_ops (r := ⟨status, operation, []⟩) h e
    exact ⟨hinv, Nat.le_of_eq heq.symm⟩
  have hread : operation.id ≠ 0 → ∀ status events,
      (exitComplete
        { status := status, events := events
          operation := { operation.completeImplementation e with
            numOps := (operation.completeImplementation e).implOps } } e).operation.OpsInv ∧
      operation.numOps ≤ (exitComplete
        { status := status, events := events
          operation := { operation.completeImplementation e with
            numOps := (operation.completeImplementation e).implOps } } e).operation.numOps := by
    intro hid status events
    obtain ⟨hinv, heq⟩ := exitComplete_ops
      (r := ⟨status, { operation.completeImplementation e with
        numOps := (operation.completeImplementation e).implOps }, events⟩)
      (fun _ => Nat.le_refl _) e
    exact ⟨hinv, Nat.le_trans (completeImplementation_le h e hid) (Nat.le_of_eq heq.symm)⟩
  cases kind with
  | signHash =>
    show (psaSignHashComplete e operation).operation.OpsInv ∧
      operation.numOps ≤ (psaSignHashComplete e operation).operation.numOps
    unfold psaSignHashComplete
    split_ifs with hstate
    · exact hnil _
    · exact hnil _
    · exact hnil _
    · exact hread (not_or.mp hstate).1 _ _
  | verifyHash =>
    show (psaVerifyHashComplete e operation).operation.OpsInv ∧
      operation.numOps ≤ (psaVerifyHashComplete e operation).operation.numOps
    unfold psaVerifyHashComplete
    split_ifs with hstate
    · exact hnil _
    · exact hread (not_or.mp hstate).1 _ _
  | keyAgreement =>
    show (psaKeyAgreementIopComplete e operation).operation.OpsInv ∧
      operation.numOps ≤ (psaKeyAgreementIopComplete e operation).operation.numOps
    unfold psaKeyAgreementIopComplete
    by_cases hstate : operation.id = 0 ∨ operation.errorOccurred = true
    · rw [if_pos hstate]
      exact ⟨h, Nat.le_refl _⟩
    rw [if_neg hstate]
    obtain ⟨hinv, heq⟩ := exitAgreement_ops
      (r := ⟨if e.implementation = .success then e.importKey.status else e.implementation,
        { operation.completeImplementation e with
          numOps := (operation.completeImplementation e).implOps },
        [.complete e.implementation]⟩) (fun _ => Nat.le_refl _) e
    exact ⟨hinv, Nat.le_trans (completeImplementation_le h e (not_or.mp hstate).1)
      (Nat.le_of_eq heq.symm)⟩
  | generateKey =>
    show (psaGenerateKeyIopComplete e operation).operation.OpsInv ∧
      operation.numOps ≤ (psaGenerateKeyIopComplete e operation).operation.numOps
    unfold psaGenerateKeyIopComplete
    split_ifs with hstate
    · exact ⟨h, Nat.le_refl _⟩
    · obtain ⟨hinv, heq⟩ := exitComplete_ops
        (r := ⟨e.implementation, operation.completeImplementation e, [.complete e.implementation]⟩)
        (fun hid => completeImplementation_le h e hid) e
      exact ⟨hinv, Nat.le_of_eq heq.symm⟩
    · exact hread (not_or.mp hstate).1 _ _

/-! ## Runs -/

structure IopStep where
  before : IopOperation
  call : IopCall
  result : IopResult

def iopRun (kind : IopKind) : IopOperation → List IopCall → List IopStep
  | _, [] => []
  | operation, call :: calls =>
    let r := kind.call operation call
    { before := operation, call := call, result := r } :: iopRun kind r.operation calls

def iopFinal (kind : IopKind) (operation : IopOperation) (calls : List IopCall) : IopOperation :=
  calls.foldl (fun operation call => (kind.call operation call).operation) operation

theorem start_leads (kind : IopKind) (e : StartEnv) (operation : IopOperation) :
    Leads operation.phase (kind.start e operation) := by
  cases kind with
  | signHash => exact psaSignHashStart_leads e operation
  | verifyHash => exact psaVerifyHashStart_leads e operation
  | keyAgreement => exact psaKeyAgreementIopSetup_leads e operation
  | generateKey => exact psaGenerateKeyIopSetup_leads e operation

theorem complete_leads (kind : IopKind) (e : CompleteEnv) (operation : IopOperation) :
    Leads operation.phase (kind.complete e operation) := by
  cases kind with
  | signHash => exact psaSignHashComplete_leads e operation
  | verifyHash => exact psaVerifyHashComplete_leads e operation
  | keyAgreement => exact psaKeyAgreementIopComplete_leads e operation
  | generateKey => exact psaGenerateKeyIopComplete_leads e operation

theorem abort_leads (operation : IopOperation) (status : PsaStatus) :
    Leads operation.phase (operation.abort status) := by
  obtain ⟨habort, hid⟩ := abortInternal_phases (phase_fits operation) status
  unfold Leads IopOperation.abort
  rw [habort]
  exact congrArg some (phase_of_id hid).symm

theorem call_leads (kind : IopKind) (operation : IopOperation) (call : IopCall) :
    Leads operation.phase (kind.call operation call) := by
  cases call with
  | start e => exact start_leads kind e operation
  | complete e => exact complete_leads kind e operation
  | getNumOps => exact leads_nil
  | abort status => exact abort_leads operation status

def IopCall.Continues : IopCall → Prop
  | .complete _ => True
  | .getNumOps => True
  | _ => False

structure StepSound (s : IopStep) : Prop where
  balanced : Balanced s.result
  numOps : s.call.Continues → s.before.numOps ≤ s.result.operation.numOps

theorem abort_opsInv (operation : IopOperation) (status : PsaStatus) :
    (operation.abort status).operation.OpsInv :=
  fun _ => Nat.zero_le _

theorem call_sound (kind : IopKind) (h : operation.OpsInv) (call : IopCall) :
    StepSound { before := operation, call := call, result := kind.call operation call } ∧
      (kind.call operation call).operation.OpsInv := by
  cases call with
  | start e => exact ⟨⟨start_balanced kind e operation, False.elim⟩, start_opsInv kind e h⟩
  | complete e =>
    obtain ⟨hinv, hle⟩ := complete_ops kind e h
    exact ⟨⟨complete_balanced kind e operation, fun _ => hle⟩, hinv⟩
  | getNumOps => exact ⟨⟨.inl rfl, fun _ => Nat.le_refl _⟩, h⟩
  | abort status =>
    exact ⟨⟨.inl (abortInternal_readers operation status), False.elim⟩,
      abort_opsInv operation status⟩

theorem iopRun_sound (kind : IopKind) (h : operation.OpsInv) (calls : List IopCall) :
    ∀ s ∈ iopRun kind operation calls, StepSound s := by
  induction calls generalizing operation with
  | nil =>
    intro s hs
    exact absurd hs List.not_mem_nil
  | cons call calls ih =>
    obtain ⟨hsound, hinv⟩ := call_sound kind h call
    intro s hs
    rw [iopRun, List.mem_cons] at hs
    rcases hs with rfl | hs
    · exact hsound
    · exact ih hinv s hs

theorem iopRun_leads (kind : IopKind) (operation : IopOperation) (calls : List IopCall) :
    ((iopRun kind operation calls).flatMap fun s => s.result.events).foldlM Phase.next
      operation.phase = some (iopFinal kind operation calls).phase := by
  induction calls generalizing operation with
  | nil => rfl
  | cons call calls ih =>
    rw [iopRun, List.flatMap_cons, foldlM_append_some (call_leads kind operation call), ih]
    rfl

/-- **Order of calls.** In every run the calls of the implementation are in order, every key slot
that is taken is given back, and the number of ops decreases only by a start or an abort. -/
theorem interruptible_in_order (kind : IopKind) (calls : List IopCall) :
    Each InOrder ((iopRun kind .init calls).flatMap fun s => s.result.events) ∧
      ∀ s ∈ iopRun kind .init calls, StepSound s :=
  ⟨each_inOrder (iopRun_leads kind .init calls), iopRun_sound kind (fun h => absurd rfl h) calls⟩

end TfPsaCrypto.Interruptible
