import TfPsaCrypto.Pake.Operation
import TfPsaCrypto.Library.History

/-!
# The J-PAKE step protocol

`PakeDriverRule` says when a driver call is in order. The prologue lets through exactly the next
step of one direction, and the epilogue counts it.
-/

namespace TfPsaCrypto

/-! ## The rules -/

def PakeDriverCall.isSetup : PakeDriverCall → Bool
  | .setup _ => true
  | _ => false

def PakeDriverCall.step? : PsaJpakeIoMode → PakeDriverCall → Option PsaCryptoDriverPakeStep
  | .output, .output step _ => some step
  | .input, .input step _ => some step
  | _, _ => none

def PakeDriverCall.isStep : PakeDriverCall → Bool
  | .output _ _ => true
  | .input _ _ => true
  | _ => false

def PsaJpakeIoMode.other : PsaJpakeIoMode → PsaJpakeIoMode
  | .input => .output
  | .output => .input

def jpakeSteps : PsaJpakeIoMode → List PsaCryptoDriverPakeStep
  | .output =>
    [.x1KeyShare, .x1ZkPublic, .x1ZkProof, .x2KeyShare, .x2ZkPublic, .x2ZkProof,
      .x2sKeyShare, .x2sZkPublic, .x2sZkProof]
  | .input =>
    [.x1KeyShare, .x1ZkPublic, .x1ZkProof, .x2KeyShare, .x2ZkPublic, .x2ZkProof,
      .x4sKeyShare, .x4sZkPublic, .x4sZkProof]

def roundOneLength : Nat := 6

def pakeSession (log : List PakeDriverEvent) : List PakeDriverEvent :=
  History.since (fun e => e.call.isSetup) log

def stepsPassed (ioMode : PsaJpakeIoMode) (s : List PakeDriverEvent) :
    List PsaCryptoDriverPakeStep :=
  s.filterMap fun e => e.call.step? ioMode

def InProgress (s : List PakeDriverEvent) : Prop :=
  ∃ inputs steps, s = { call := .setup inputs, status := .success } :: steps ∧
    ∀ e ∈ steps, e.call.isStep = true ∧ e.status = .success

def RoundOneComplete (s : List PakeDriverEvent) : Prop :=
  ∀ ioMode, (jpakeSteps ioMode).take roundOneLength <+: stepsPassed ioMode s

def BothRoundsComplete (s : List PakeDriverEvent) : Prop :=
  ∀ ioMode, stepsPassed ioMode s = jpakeSteps ioMode

/-- A step is in order after `s`: the next of its direction, the other not inside a triple, and
round two after all of round one. -/
def StepRule (ioMode : PsaJpakeIoMode) (s : List PakeDriverEvent)
    (step : PsaCryptoDriverPakeStep) : Prop :=
  InProgress s ∧ stepsPassed ioMode s ++ [step] <+: jpakeSteps ioMode ∧
    (stepsPassed ioMode.other s).length % 3 = 0 ∧
    (step ∈ (jpakeSteps ioMode).drop roundOneLength → RoundOneComplete s)

/-- When a driver call is in order after the calls `s` of the session. -/
def PakeDriverRule (s : List PakeDriverEvent) (e : PakeDriverEvent) : Prop :=
  match e.call with
  | .setup _ => True
  | .output step _ => StepRule .output s step
  | .input step _ => StepRule .input s step
  | .getSharedKey => InProgress s ∧ BothRoundsComplete s
  | .abort => True

def PakeInOrder (log : List PakeDriverEvent) : Prop :=
  History.Each (fun past e => PakeDriverRule (pakeSession past) e) log

section Session

variable {log s : List PakeDriverEvent} {e : PakeDriverEvent}

theorem pakeSession_append (h : e.call.isSetup = false) :
    pakeSession (log ++ [e]) = pakeSession log ++ [e] := by
  rw [pakeSession, History.since_append_singleton, if_neg (by simp [h])]
  rfl

theorem pakeSession_append_setup (h : e.call.isSetup = true) :
    pakeSession (log ++ [e]) = [e] := by
  rw [pakeSession, History.since_append_singleton, if_pos h]

theorem pakeInOrder_append (h : PakeInOrder log)
    (he : PakeDriverRule (pakeSession log) e) : PakeInOrder (log ++ [e]) :=
  History.each_append_singleton.mpr ⟨h, he⟩

theorem stepsPassed_append (ioMode : PsaJpakeIoMode) :
    stepsPassed ioMode (s ++ [e]) = stepsPassed ioMode s ++ (e.call.step? ioMode).toList := by
  rw [stepsPassed, List.filterMap_append, ← stepsPassed]
  cases h : e.call.step? ioMode <;> simp [h]

theorem InProgress.append (h : InProgress s) (hstep : e.call.isStep = true)
    (hok : e.status = .success) : InProgress (s ++ [e]) := by
  obtain ⟨inputs, steps, rfl, hsteps⟩ := h
  refine ⟨inputs, steps ++ [e], rfl, ?_⟩
  intro f hf
  rcases List.mem_append.mp hf with hf | hf
  · exact hsteps f hf
  · rw [List.mem_singleton.mp hf]
    exact ⟨hstep, hok⟩

end Session

/-! ## The computation stage counts the steps passed -/

namespace PsaJpakeComputationStage

def count (stage : PsaJpakeComputationStage) : PsaJpakeIoMode → Nat
  | .input => stage.inputs
  | .output => stage.outputs

def expected (stage : PsaJpakeComputationStage) : PsaJpakeIoMode → Nat
  | .input => psaJpakeExpectedInputs stage.round
  | .output => psaJpakeExpectedOutputs stage.round

def before (stage : PsaJpakeComputationStage) : Nat :=
  match stage.round with
  | .first => 0
  | .second => roundOneLength
  | .finished => 9

def done (stage : PsaJpakeComputationStage) (ioMode : PsaJpakeIoMode) : Nat :=
  stage.before + 3 * stage.count ioMode + if stage.ioMode = ioMode then stage.step.toNat - 1 else 0

def AtStart (stage : PsaJpakeComputationStage) : Prop :=
  stage.step = psaPakeStepKeyShare ∧ stage.inputs = 0 ∧ stage.outputs = 0

instance (stage : PsaJpakeComputationStage) : Decidable stage.AtStart :=
  inferInstanceAs (Decidable (_ ∧ _ ∧ _))

structure Ok (stage : PsaJpakeComputationStage) : Prop where
  step : stage.step = psaPakeStepKeyShare ∨ stage.step = psaPakeStepZkPublic ∨
    stage.step = psaPakeStepZkProof
  finished : stage.round = .finished → stage.AtStart
  count_le : ∀ ioMode, stage.count ioMode ≤ stage.expected ioMode
  open_round : stage.round ≠ .finished →
    stage.count .input < stage.expected .input ∨ stage.count .output < stage.expected .output
  mode : ¬ stage.AtStart → stage.count stage.ioMode < stage.expected stage.ioMode

structure Ready (stage : PsaJpakeComputationStage) (ioMode : PsaJpakeIoMode) : Prop
    extends Ok stage where
  ioMode_eq : stage.ioMode = ioMode
  count_lt : stage.count ioMode < stage.expected ioMode

theorem ok_start : Ok { zero with step := psaPakeStepKeyShare } where
  step := .inl rfl
  finished := by simp [zero]
  count_le ioMode := by cases ioMode <;> simp [count, zero]
  open_round _ := .inl (by decide)
  mode h := absurd ⟨rfl, rfl, rfl⟩ h

@[simp] theorem done_start (ioMode : PsaJpakeIoMode) :
    done { zero with step := psaPakeStepKeyShare } ioMode = 0 := by
  cases ioMode <;> decide

variable {stage stage' : PsaJpakeComputationStage} {ioMode : PsaJpakeIoMode}

theorem Ok.setMode (h : stage.Ok) (hstart : stage.AtStart)
    (hround : stage.round ≠ .finished) : Ready { stage with ioMode := ioMode } ioMode where
  step := h.step
  finished hf := absurd hf hround
  count_le m := by
    cases m
    · exact h.count_le .input
    · exact h.count_le .output
  open_round := h.open_round
  mode hs := absurd hstart hs
  ioMode_eq := rfl
  count_lt := by
    obtain ⟨_, hin, hout⟩ := hstart
    cases ioMode <;> cases hr : stage.round <;>
      simp_all [count, expected, psaJpakeExpectedInputs, psaJpakeExpectedOutputs]

theorem AtStart.done_setMode (h : stage.AtStart) (m : PsaJpakeIoMode) :
    done { stage with ioMode := ioMode } m = stage.done m := by
  obtain ⟨hstep, _, _⟩ := h
  have hzero : stage.step.toNat - 1 = 0 := by rw [hstep]; rfl
  cases m <;> simp [done, hzero, before, count]

theorem prologue_ready {step : PsaPakeStep} (h : stage.Ok)
    (hp : psaJpakePrologue stage step ioMode = (.success, stage')) :
    stage'.Ready ioMode ∧ ∀ m, stage'.done m = stage.done m := by
  unfold psaJpakePrologue at hp
  split at hp
  · simp at hp
  split at hp
  · simp at hp
  next hround =>
  have hopen : stage.round ≠ .finished := by
    intro hf
    simp [hf] at hround
  split at hp
  · simp at hp
  next hstep =>
  rw [not_not] at hstep
  split at hp
  · next hstart =>
    rw [hstep] at hstart
    cases hp
    exact ⟨h.setMode hstart hopen, AtStart.done_setMode hstart⟩
  next hnot =>
  split at hp
  · simp at hp
  next hmode =>
  rw [not_not] at hmode
  cases hp
  rw [hstep] at hnot
  refine ⟨{ h with ioMode_eq := hmode, count_lt := ?_ }, fun _ => rfl⟩
  rw [← hmode]
  exact h.mode hnot

theorem Ready.counts (h : stage.Ready ioMode) :
    (stage.round = .first ∧ stage.count ioMode < 2 ∧ stage.count ioMode.other ≤ 2) ∨
      (stage.round = .second ∧ stage.count ioMode = 0 ∧ stage.count ioMode.other ≤ 1) := by
  have hlt := h.count_lt
  have hle := h.count_le ioMode.other
  cases hr : stage.round <;> cases ioMode <;>
    simp_all [expected, psaJpakeExpectedInputs, psaJpakeExpectedOutputs, PsaJpakeIoMode.other]

theorem Ready.driverStep (h : stage.Ready ioMode) :
    (jpakeSteps ioMode)[stage.done ioMode]? =
      some (convertJpakeComputationStageToDriverStep stage) := by
  obtain ⟨round, mode, inputs, outputs, step⟩ := stage
  obtain rfl : mode = ioMode := h.ioMode_eq
  have hstep := h.step
  rcases h.counts with ⟨hround, hcount, _⟩ | ⟨hround, hcount, _⟩
  · subst hround
    cases mode
    · change inputs < 2 at hcount
      rcases hstep with hs | hs | hs <;> subst hs <;> interval_cases inputs <;> rfl
    · change outputs < 2 at hcount
      rcases hstep with hs | hs | hs <;> subst hs <;> interval_cases outputs <;> rfl
  · subst hround
    cases mode
    · change inputs = 0 at hcount
      rcases hstep with hs | hs | hs <;> subst hs hcount <;> rfl
    · change outputs = 0 at hcount
      rcases hstep with hs | hs | hs <;> subst hs hcount <;> rfl

theorem before_mod : stage.before % 3 = 0 := by
  cases hr : stage.round <;> simp [before, hr, roundOneLength]

theorem Ready.ioMode_ne_other (h : stage.Ready ioMode) :
    stage.ioMode ≠ ioMode.other := by
  rw [h.ioMode_eq]
  cases ioMode <;> simp [PsaJpakeIoMode.other]

theorem Ready.done_other (h : stage.Ready ioMode) :
    stage.done ioMode.other = stage.before + 3 * stage.count ioMode.other := by
  rw [done, if_neg h.ioMode_ne_other, Nat.add_zero]

theorem Ready.round_ne_finished (h : stage.Ready ioMode) : stage.round ≠ .finished := by
  rcases h.counts with ⟨hround, _⟩ | ⟨hround, _⟩ <;> simp [hround]

theorem Ready.next_step (h : stage.Ready ioMode) (hstep : stage.step ≠ psaPakeStepZkProof) :
    Ok { stage with step := stage.step + 1 } ∧
      done { stage with step := stage.step + 1 } ioMode = stage.done ioMode + 1 := by
  have hmode : stage.ioMode = ioMode := h.ioMode_eq
  rcases h.step with hs | hs | hs
  · refine ⟨⟨.inr (.inl (by rw [hs]; rfl)), fun hf => absurd hf h.round_ne_finished,
      h.count_le, h.open_round, fun _ => ?_⟩, ?_⟩
    · rw [hmode]
      exact h.count_lt
    · simp only [done, hmode, hs, if_pos]
      rfl
  · refine ⟨⟨.inr (.inr (by rw [hs]; rfl)), fun hf => absurd hf h.round_ne_finished,
      h.count_le, h.open_round, fun _ => ?_⟩, ?_⟩
    · rw [hmode]
      exact h.count_lt
    · simp only [done, hmode, hs, if_pos]
      rfl
  · exact absurd hs hstep

theorem Ready.epilogue (h : stage.Ready ioMode) :
    (psaJpakeEpilogue stage ioMode).Ok ∧
      (psaJpakeEpilogue stage ioMode).done ioMode = stage.done ioMode + 1 ∧
      (psaJpakeEpilogue stage ioMode).done ioMode.other = stage.done ioMode.other := by
  by_cases hstep : stage.step = psaPakeStepZkProof
  · obtain ⟨round, mode, inputs, outputs, step⟩ := stage
    obtain rfl : mode = ioMode := h.ioMode_eq
    obtain rfl : step = psaPakeStepZkProof := hstep
    -- the triple is complete: one case per round and per counts of the two directions
    rcases h.counts with ⟨hround, hown, hother⟩ | ⟨hround, hown, hother⟩
    · obtain rfl : round = .first := hround
      cases mode
      · change inputs < 2 at hown
        change outputs ≤ 2 at hother
        interval_cases inputs <;> interval_cases outputs <;>
          exact ⟨⟨by decide, by decide, fun m => by cases m <;> decide, by decide,
            by decide⟩, by decide, by decide⟩
      · change outputs < 2 at hown
        change inputs ≤ 2 at hother
        interval_cases inputs <;> interval_cases outputs <;>
          exact ⟨⟨by decide, by decide, fun m => by cases m <;> decide, by decide,
            by decide⟩, by decide, by decide⟩
    · obtain rfl : round = .second := hround
      cases mode
      · obtain rfl : inputs = 0 := hown
        change outputs ≤ 1 at hother
        interval_cases outputs <;>
          exact ⟨⟨by decide, by decide, fun m => by cases m <;> decide, by decide,
            by decide⟩, by decide, by decide⟩
      · obtain rfl : outputs = 0 := hown
        change inputs ≤ 1 at hother
        interval_cases inputs <;>
          exact ⟨⟨by decide, by decide, fun m => by cases m <;> decide, by decide,
            by decide⟩, by decide, by decide⟩
  · have hkeep : psaJpakeEpilogue stage ioMode = { stage with step := stage.step + 1 } :=
      if_neg hstep
    rw [hkeep]
    obtain ⟨hok, hdone⟩ := h.next_step hstep
    refine ⟨hok, hdone, ?_⟩
    rw [done, done, if_neg h.ioMode_ne_other, if_neg h.ioMode_ne_other]
    rfl

end PsaJpakeComputationStage

/-! ## The invariant -/

/-- The computation stage against the calls `s` of the session. -/
structure ComputationInv (stage : PsaJpakeComputationStage) (s : List PakeDriverEvent) :
    Prop where
  ok : stage.Ok
  progress : InProgress s
  passed : ∀ ioMode, stepsPassed ioMode s = (jpakeSteps ioMode).take (stage.done ioMode)

def StageInv (op : PsaPakeOperation) (s : List PakeDriverEvent) : Prop :=
  match op.stage with
  | .setup => op = .init
  | .collectInputs => psaAlgIsJpake op.alg = true ∧
      op.computationStage =
        { PsaJpakeComputationStage.zero with step := psaPakeStepKeyShare }
  | .computation => psaAlgIsJpake op.alg = true ∧ ComputationInv op.computationStage s

def PakeInv (log : List PakeDriverEvent) (op : PsaPakeOperation) : Prop :=
  PakeInOrder log ∧ StageInv op (pakeSession log)

theorem length_jpakeSteps (ioMode : PsaJpakeIoMode) : (jpakeSteps ioMode).length = 9 := by
  cases ioMode <;> rfl

theorem index_of_roundTwo {ioMode : PsaJpakeIoMode} {n : Nat}
    {step : PsaCryptoDriverPakeStep} (h : (jpakeSteps ioMode)[n]? = some step)
    (htwo : step ∈ (jpakeSteps ioMode).drop roundOneLength) : roundOneLength ≤ n := by
  by_contra hlt
  rw [Nat.not_le] at hlt
  change n < 6 at hlt
  cases ioMode <;> interval_cases n <;> cases h <;> simp [jpakeSteps, roundOneLength] at htwo

namespace ComputationInv

variable {stage stage' : PsaJpakeComputationStage} {s : List PakeDriverEvent}
  {ioMode : PsaJpakeIoMode} {e : PakeDriverEvent}

theorem start (inputs : PsaCryptoDriverPakeInputs) :
    ComputationInv { PsaJpakeComputationStage.zero with step := psaPakeStepKeyShare }
      [{ call := .setup inputs, status := .success }] where
  ok := PsaJpakeComputationStage.ok_start
  progress := ⟨inputs, [], rfl, by simp⟩
  passed ioMode := by
    rw [PsaJpakeComputationStage.done_start]
    cases ioMode <;> rfl

theorem of_done (h : ComputationInv stage s) (hok : stage'.Ok)
    (hdone : ∀ m, stage'.done m = stage.done m) : ComputationInv stage' s where
  ok := hok
  progress := h.progress
  passed m := by rw [hdone]; exact h.passed m

theorem stepRule (h : ComputationInv stage s) (hready : stage.Ready ioMode) :
    StepRule ioMode s (convertJpakeComputationStageToDriverStep stage) := by
  have hstep := hready.driverStep
  refine ⟨h.progress, ?_, ?_, ?_⟩
  · rw [h.passed]
    have htake := List.take_add_one (l := jpakeSteps ioMode) (i := stage.done ioMode)
    rw [hstep, Option.toList_some] at htake
    rw [← htake]
    exact List.take_prefix _ _
  · rw [h.passed, List.length_take, length_jpakeSteps]
    have hother := hready.done_other
    have hbefore : stage.before % 3 = 0 := PsaJpakeComputationStage.before_mod
    omega
  · intro htwo m
    have hindex := index_of_roundTwo hstep htwo
    have hsecond : stage.round = .second := by
      rcases hready.counts with ⟨hround, hown, _⟩ | ⟨hround, _⟩
      · have hs := hready.step
        have hdone : stage.done ioMode < roundOneLength := by
          simp only [PsaJpakeComputationStage.done, PsaJpakeComputationStage.before, hround,
            if_pos hready.ioMode_eq, roundOneLength]
          rcases hs with hs | hs | hs <;> rw [hs] <;>
            simp [psaPakeStepKeyShare, psaPakeStepZkPublic, psaPakeStepZkProof] <;> omega
        omega
      · exact hround
    have hle : roundOneLength ≤ stage.done m := by
      simp only [PsaJpakeComputationStage.done, PsaJpakeComputationStage.before, hsecond]
      omega
    rw [h.passed]
    exact List.take_prefix_take_left hle

theorem step (h : ComputationInv stage s) (hready : stage.Ready ioMode)
    (hcall : e.call.step? ioMode = some (convertJpakeComputationStageToDriverStep stage))
    (hother : e.call.step? ioMode.other = none) (hstep : e.call.isStep = true)
    (hok : e.status = .success) :
    ComputationInv (psaJpakeEpilogue stage ioMode) (s ++ [e]) := by
  obtain ⟨hepilogue, hdone, hkeep⟩ := hready.epilogue
  have hown : stepsPassed ioMode (s ++ [e]) =
      (jpakeSteps ioMode).take ((psaJpakeEpilogue stage ioMode).done ioMode) := by
    rw [stepsPassed_append, hcall, h.passed, hdone, List.take_add_one, hready.driverStep]
  have hrest : stepsPassed ioMode.other (s ++ [e]) =
      (jpakeSteps ioMode.other).take ((psaJpakeEpilogue stage ioMode).done ioMode.other) := by
    rw [stepsPassed_append, hother, h.passed, hkeep]
    exact List.append_nil _
  refine ⟨hepilogue, h.progress.append hstep hok, fun m => ?_⟩
  cases ioMode <;> cases m
  · exact hown
  · exact hrest
  · exact hrest
  · exact hown

theorem bothRoundsComplete (h : ComputationInv stage s) (hround : stage.round = .finished) :
    BothRoundsComplete s := by
  intro ioMode
  have hdone : 9 ≤ stage.done ioMode := by
    simp only [PsaJpakeComputationStage.done, PsaJpakeComputationStage.before, hround]
    omega
  rw [h.passed, List.take_of_length_le (by rw [length_jpakeSteps]; exact hdone)]

end ComputationInv

/-! ## One call -/

variable {status : PsaStatus} {sizeOk : Bool} {size : Nat}

section Call

variable {env : PakeEnv} {op : PsaPakeOperation} {log l : List PakeDriverEvent}

theorem PakeInv.abort (h : PakeInOrder log) :
    PakeInv (log ++ (psaPakeAbort env op).log) (psaPakeAbort env op).operation := by
  unfold psaPakeAbort
  split
  · exact ⟨pakeInOrder_append h trivial, rfl⟩
  · rw [List.append_nil]
    exact ⟨h, rfl⟩

theorem psaPakeExit_error (hne : status ≠ .success) (h : PakeInOrder (log ++ l)) :
    PakeInv (log ++ (psaPakeExit env op l status).log) (psaPakeExit env op l status).operation := by
  unfold psaPakeExit
  rw [if_pos hne, ← List.append_assoc]
  exact PakeInv.abort h

theorem psaPakeExit_success (h : PakeInv (log ++ l) op) :
    PakeInv (log ++ (psaPakeExit env op l .success).log)
      (psaPakeExit env op l .success).operation := by
  unfold psaPakeExit
  rw [if_neg (by simp)]
  exact h

theorem PakeInv.exit (h : PakeInv log op) (hne : status ≠ .success) {op' : PsaPakeOperation} :
    PakeInv (log ++ (psaPakeExit env op' [] status).log)
      (psaPakeExit env op' [] status).operation :=
  psaPakeExit_error hne (by rw [List.append_nil]; exact h.1)

theorem PakeInv.setPasswordKey (h : PakeInv log op) :
    PakeInv (log ++ (psaPakeSetPasswordKey env op).log)
      (psaPakeSetPasswordKey env op).operation := by
  unfold psaPakeSetPasswordKey
  split
  · exact h.exit (by simp)
  next hstage =>
  rw [not_not] at hstage
  split
  · next e _ => exact h.exit e.ne_success
  split
  · exact h.exit (by simp)
  split
  · exact h.exit (by simp)
  rw [List.append_nil]
  refine ⟨h.1, ?_⟩
  have hinv := h.2
  unfold StageInv at hinv ⊢
  simp only [hstage] at hinv ⊢
  exact hinv

theorem PakeInv.setup (h : PakeInv log op) (cipherSuite : PsaPakeCipherSuite) :
    PakeInv (log ++ (psaPakeSetup env op cipherSuite).log)
      (psaPakeSetup env op cipherSuite).operation := by
  unfold psaPakeSetup
  split
  · exact h.exit (by simp)
  split
  · exact h.exit (by simp)
  dsimp only
  split
  · next hjpake =>
    apply PakeInv.setPasswordKey
    exact ⟨h.1, hjpake, rfl⟩
  · exact h.exit (by simp)

theorem PakeInv.setIdentity (h : PakeInv log op) (current identity : Bytes.ByteString)
    (set : PsaCryptoDriverPakeInputs → PsaCryptoDriverPakeInputs) :
    PakeInv (log ++ (psaPakeSetIdentity env op current identity set).log)
      (psaPakeSetIdentity env op current identity set).operation := by
  unfold psaPakeSetIdentity
  split
  · exact h.exit (by simp)
  next hstage =>
  rw [not_not] at hstage
  split
  · exact h.exit (by simp)
  split
  · exact h.exit (by simp)
  split
  · exact h.exit (by simp)
  split
  · next hne => exact h.exit hne
  apply psaPakeExit_success
  rw [List.append_nil]
  refine ⟨h.1, ?_⟩
  have hinv := h.2
  unfold StageInv at hinv ⊢
  simp only [hstage] at hinv ⊢
  exact hinv

theorem PakeInv.setRole (h : PakeInv log op) (role : BitVec 8) :
    PakeInv (log ++ (psaPakeSetRole env op role).log) (psaPakeSetRole env op role).operation := by
  unfold psaPakeSetRole
  split
  · exact h.exit (by simp)
  split
  · split
    · rw [List.append_nil]
      exact h
    · exact h.exit (by simp)
  · exact h.exit (by simp)

theorem PakeInv.completeInputs (h : PakeInv log op) (hstage : op.stage = .collectInputs) :
    PakeInOrder (log ++ (psaPakeCompleteInputs env op).log) ∧
      ((psaPakeCompleteInputs env op).status = .success →
        PakeInv (log ++ (psaPakeCompleteInputs env op).log)
          (psaPakeCompleteInputs env op).operation) := by
  have hnone : PakeInOrder (log ++ []) := by
    rw [List.append_nil]
    exact h.1
  unfold psaPakeCompleteInputs
  dsimp only
  split
  · exact ⟨hnone, by simp⟩
  split
  · exact ⟨hnone, by simp⟩
  split
  · next hne => exact ⟨pakeInOrder_append h.1 trivial, fun hok => absurd hok hne⟩
  next hok =>
  rw [not_not] at hok
  split
  · next hjpake =>
    have horder := pakeInOrder_append (e := ⟨.setup op.inputs, env.driverSetup⟩) h.1 trivial
    refine ⟨horder, fun _ => ⟨horder, hjpake, ?_⟩⟩
    have hinv := h.2
    unfold StageInv at hinv
    simp only [hstage] at hinv
    rw [pakeSession_append_setup rfl, hok, hinv.2]
    exact ComputationInv.start op.inputs
  · exact ⟨pakeInOrder_append h.1 trivial, by simp⟩

structure PassesStep (ioMode : PsaJpakeIoMode)
    (call : PsaCryptoDriverPakeStep → PakeDriverCall) : Prop where
  own (step) : (call step).step? ioMode = some step
  other (step) : (call step).step? ioMode.other = none
  isStep (step) : (call step).isStep = true
  not_setup (step) : (call step).isSetup = false
  rule (s step status) : StepRule ioMode s step → PakeDriverRule s ⟨call step, status⟩

theorem PakeInv.transfer (h : PakeInv (log ++ l) op) {step : PsaPakeStep} {ioMode : PsaJpakeIoMode}
    {call : PsaCryptoDriverPakeStep → PakeDriverCall} (hcall : PassesStep ioMode call) :
    PakeInv (log ++ (psaPakeTransfer env op l step ioMode sizeOk size call).log)
      (psaPakeTransfer env op l step ioMode sizeOk size call).operation := by
  unfold psaPakeTransfer
  split
  · exact psaPakeExit_error (by simp) h.1
  next hstage =>
  rw [not_not] at hstage
  have hinv := h.2
  unfold StageInv at hinv
  simp only [hstage] at hinv
  obtain ⟨hjpake, hcomp⟩ := hinv
  split
  · exact psaPakeExit_error (by simp) h.1
  rcases hprologue : psaJpakePrologue op.computationStage step ioMode with ⟨prologue, stage⟩
  dsimp only
  split
  · next hne => exact psaPakeExit_error hne h.1
  next hok =>
  rw [not_not] at hok
  subst hok
  obtain ⟨hready, hdone⟩ := PsaJpakeComputationStage.prologue_ready hcomp.ok hprologue
  have hrule : ∀ status, PakeDriverRule (pakeSession (log ++ l))
      ⟨call (convertJpakeComputationStageToDriverStep stage), status⟩ := by
    intro status
    exact hcall.rule _ _ _ ((hcomp.of_done hready.toOk hdone).stepRule hready)
  split
  · next hne => exact psaPakeExit_error hne h.1
  have horder : ∀ status, PakeInOrder (log ++ (l ++
      [⟨call (convertJpakeComputationStageToDriverStep stage), status⟩])) := by
    intro status
    rw [← List.append_assoc]
    exact pakeInOrder_append h.1 (hrule status)
  split
  · next hne => exact psaPakeExit_error hne (horder _)
  next hok =>
  rw [not_not] at hok
  apply psaPakeExit_success
  refine ⟨horder _, ?_⟩
  simp only [hstage]
  refine ⟨hjpake, ?_⟩
  rw [← List.append_assoc, pakeSession_append (hcall.not_setup _)]
  exact (hcomp.of_done hready.toOk hdone).step hready (hcall.own _) (hcall.other _)
    (hcall.isStep _) hok

theorem PakeInv.completeAndTransfer (h : PakeInv log op) {step : PsaPakeStep}
    {ioMode : PsaJpakeIoMode} {call : PsaCryptoDriverPakeStep → PakeDriverCall}
    (hcall : PassesStep ioMode call) :
    PakeInv (log ++ (psaPakeCompleteAndTransfer env op step ioMode sizeOk size call).log)
      (psaPakeCompleteAndTransfer env op step ioMode sizeOk size call).operation := by
  unfold psaPakeCompleteAndTransfer
  split
  · next hstage =>
    have horder : PakeInOrder (log ++ (psaPakeCompleteInputs env op).log) :=
      (h.completeInputs hstage).1
    dsimp only
    split
    · next hne => exact psaPakeExit_error hne horder
    next hok =>
    rw [not_not] at hok
    exact ((h.completeInputs hstage).2 hok).transfer hcall
  · apply PakeInv.transfer _ hcall
    rw [List.append_nil]
    exact h

theorem passesStep_output (outputSize : Nat) :
    PassesStep .output fun step => .output step outputSize where
  own _ := rfl
  other _ := rfl
  isStep _ := rfl
  not_setup _ := rfl
  rule _ _ _ h := h

theorem passesStep_input (input : Bytes.ByteString) :
    PassesStep .input fun step => .input step input where
  own _ := rfl
  other _ := rfl
  isStep _ := rfl
  not_setup _ := rfl
  rule _ _ _ h := h

theorem PakeInv.getSharedKeyExit {status : Except PsaError PsaKeyId}
    (h : PakeInOrder (log ++ l)) :
    PakeInv (log ++ (psaPakeGetSharedKeyExit env op l status).log)
      (psaPakeGetSharedKeyExit env op l status).operation := by
  have habort : PakeInv (log ++ l ++ (psaPakeAbort env op).log) (psaPakeAbort env op).operation :=
    PakeInv.abort h
  rw [List.append_assoc] at habort
  cases status <;> exact habort

theorem PakeInv.getSharedKey (h : PakeInv log op) :
    PakeInv (log ++ (psaPakeGetSharedKey env op).log) (psaPakeGetSharedKey env op).operation := by
  have hnone : PakeInOrder (log ++ []) := by
    rw [List.append_nil]
    exact h.1
  unfold psaPakeGetSharedKey
  split
  · exact PakeInv.getSharedKeyExit hnone
  next hstage =>
  rw [not_not] at hstage
  have hinv := h.2
  unfold StageInv at hinv
  simp only [hstage] at hinv
  split
  · split
    · exact PakeInv.getSharedKeyExit hnone
    next hround =>
    rw [not_not] at hround
    have horder : PakeInOrder (log ++ [⟨.getSharedKey, env.driver⟩]) :=
      pakeInOrder_append h.1 ⟨hinv.2.progress, hinv.2.bothRoundsComplete hround⟩
    split
    · exact PakeInv.getSharedKeyExit horder
    · exact PakeInv.getSharedKeyExit horder
  · exact PakeInv.getSharedKeyExit hnone

theorem PakeInv.call (h : PakeInv log op) (call : PakeCall) :
    PakeInv (log ++ (pakeCall env op call).log) (pakeCall env op call).operation := by
  cases call with
  | setup cipherSuite => exact h.setup cipherSuite
  | setUser userId => exact h.setIdentity _ _ _
  | setPeer peerId => exact h.setIdentity _ _ _
  | setRole role => exact h.setRole role
  | setContext =>
    change PakeInv (log ++ []) op
    rw [List.append_nil]
    exact h
  | output step outputSize => exact h.completeAndTransfer (passesStep_output outputSize)
  | input step input => exact h.completeAndTransfer (passesStep_input input)
  | getSharedKey => exact h.getSharedKey
  | abort => exact PakeInv.abort h.1

/-! ## Errors -/

def PakeCall.isSetup : PakeCall → Bool
  | .setup _ => true
  | _ => false

def PakeCall.isAbort : PakeCall → Bool
  | .abort => true
  | _ => false

end Call

/-! ## Sequences of calls -/

section Runs

variable {op op' : PsaPakeOperation}
  {tr : List ((PakeCall × PakeEnv) × PakeObservation)}

end Runs

end TfPsaCrypto
