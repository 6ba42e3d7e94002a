import TfPsaCrypto.Builtin.PsaPake

/-!
# J-PAKE slicing and reassembly

The pieces that a party sends are the records of the rounds it wrote. The two directions share the
buffer.
-/

namespace TfPsaCrypto

open Bytes

/-! ## One direction at a time -/

/-- The pieces of the round that is under way after `k` pieces in one direction. -/
def pendingPieces (k : Nat) : Nat := if k < 6 then k else if k < 9 then k - 6 else 0

namespace PsaJpakeComputationStage

def BetweenRounds (stage : PsaJpakeComputationStage) (ioMode : PsaJpakeIoMode) : Prop :=
  stage.count ioMode = 0 ∨ stage.count ioMode = stage.expected ioMode

def Turn (stage : PsaJpakeComputationStage) : Prop :=
  ¬ stage.AtStart → stage.BetweenRounds stage.ioMode.other

variable {stage stage' : PsaJpakeComputationStage} {ioMode : PsaJpakeIoMode}

theorem prologue_turn {step : PsaPakeStep} (h : stage.Turn)
    (hp : psaJpakePrologue stage step ioMode = (.success, stage')) :
    stage'.BetweenRounds ioMode.other ∧ stage'.step = step := by
  unfold psaJpakePrologue at hp
  split at hp
  · simp at hp
  split at hp
  · simp at hp
  split at hp
  · simp at hp
  next hstep =>
  rw [not_not] at hstep
  split at hp
  · next hstart =>
    cases hp
    obtain ⟨_, hin, hout⟩ := hstart
    refine ⟨.inl ?_, hstep.symm⟩
    cases ioMode <;> simpa [count, PsaJpakeIoMode.other]
  next hnot =>
  split at hp
  · simp at hp
  next hmode =>
  rw [not_not] at hmode
  cases hp
  rw [hstep] at hnot
  refine ⟨?_, hstep.symm⟩
  rw [← hmode]
  exact h hnot

theorem Ready.epilogue_turn (h : stage.Ready ioMode)
    (hother : stage.BetweenRounds ioMode.other) : (psaJpakeEpilogue stage ioMode).Turn := by
  by_cases hstep : stage.step = psaPakeStepZkProof
  · obtain ⟨round, mode, inputs, outputs, step⟩ := stage
    obtain rfl : mode = ioMode := h.ioMode_eq
    obtain rfl : step = psaPakeStepZkProof := hstep
    -- one case per round and per counts of the two directions
    rcases h.counts with ⟨hround, hown, hle⟩ | ⟨hround, hown, hle⟩
    · obtain rfl : round = .first := hround
      cases mode
      · change inputs < 2 at hown
        change outputs = 0 ∨ outputs = 2 at hother
        rcases hother with rfl | rfl <;> interval_cases inputs <;>
          simp [psaJpakeEpilogue, complete, Turn, AtStart, BetweenRounds, count, expected,
            psaJpakeExpectedInputs, psaJpakeExpectedOutputs, PsaJpakeIoMode.other]
      · change outputs < 2 at hown
        change inputs = 0 ∨ inputs = 2 at hother
        rcases hother with rfl | rfl <;> interval_cases outputs <;>
          simp [psaJpakeEpilogue, complete, Turn, AtStart, BetweenRounds, count, expected,
            psaJpakeExpectedInputs, psaJpakeExpectedOutputs, PsaJpakeIoMode.other]
    · obtain rfl : round = .second := hround
      cases mode
      · obtain rfl : inputs = 0 := hown
        change outputs ≤ 1 at hle
        interval_cases outputs <;>
          simp [psaJpakeEpilogue, complete, Turn, AtStart, BetweenRounds, count, expected,
            psaJpakeExpectedInputs, psaJpakeExpectedOutputs, PsaJpakeIoMode.other]
      · obtain rfl : outputs = 0 := hown
        change inputs ≤ 1 at hle
        interval_cases inputs <;>
          simp [psaJpakeEpilogue, complete, Turn, AtStart, BetweenRounds, count, expected,
            psaJpakeExpectedInputs, psaJpakeExpectedOutputs, PsaJpakeIoMode.other]
  · have hkeep : psaJpakeEpilogue stage ioMode = { stage with step := stage.step + 1 } :=
      if_neg hstep
    rw [hkeep]
    intro _
    have hmode : stage.ioMode = ioMode := h.ioMode_eq
    rw [hmode]
    exact hother

theorem Ready.other_boundary (h : stage.Ready ioMode)
    (hother : stage.BetweenRounds ioMode.other) :
    stage.done ioMode.other = 0 ∨ stage.done ioMode.other = 6 ∨ stage.done ioMode.other = 9 := by
  rw [h.done_other]
  rcases h.counts with ⟨hround, _, _⟩ | ⟨hround, _, _⟩
  · have hbefore : stage.before = 0 := by simp [before, hround]
    have hexpected : stage.expected ioMode.other = 2 := by
      cases ioMode <;> simp [expected, hround, PsaJpakeIoMode.other,
        psaJpakeExpectedInputs, psaJpakeExpectedOutputs]
    rcases hother with hzero | hfull
    · left
      rw [hzero, hbefore]
    · right; left
      rw [hfull, hexpected, hbefore]
  · have hbefore : stage.before = 6 := by simp [before, hround, roundOneLength]
    have hexpected : stage.expected ioMode.other = 1 := by
      cases ioMode <;> simp [expected, hround, PsaJpakeIoMode.other,
        psaJpakeExpectedInputs, psaJpakeExpectedOutputs]
    rcases hother with hzero | hfull
    · right; left
      rw [hzero, hbefore]
    · right; right
      rw [hfull, hexpected, hbefore]

theorem Ready.done_lt (h : stage.Ready ioMode) : stage.done ioMode < 9 := by
  have hlt := (List.getElem?_eq_some_iff.mp h.driverStep).1
  rwa [length_jpakeSteps] at hlt

theorem Ready.step_toNat (h : stage.Ready ioMode) :
    stage.step.toNat = stage.done ioMode % 3 + 1 := by
  have hmod : stage.before % 3 = 0 := before_mod
  have hdone : stage.done ioMode = stage.before + 3 * stage.count ioMode +
      (stage.step.toNat - 1) := by
    rw [done, if_pos h.ioMode_eq]
  have hstep : stage.step.toNat = 1 ∨ stage.step.toNat = 2 ∨ stage.step.toNat = 3 := by
    rcases h.step with hs | hs | hs <;> rw [hs] <;> simp [psaPakeStepKeyShare,
      psaPakeStepZkPublic, psaPakeStepZkProof]
  omega

end PsaJpakeComputationStage

theorem pendingPieces_eq_zero {k : Nat} (h : k = 0 ∨ k = 6 ∨ k = 9) : pendingPieces k = 0 := by
  rcases h with rfl | rfl | rfl <;> rfl

/-! ## Records in a buffer -/

theorem length_jpakeRecord (r : ByteString) : (jpakeRecord r).length = r.length + 1 := rfl

theorem jpakeRecords_split {rs : List ByteString} {j : Nat} (hj : j < rs.length) :
    rs.flatMap jpakeRecord = (rs.take j).flatMap jpakeRecord ++
      (jpakeRecord rs[j] ++ (rs.drop (j + 1)).flatMap jpakeRecord) := by
  conv_lhs => rw [← List.take_append_drop j rs, List.drop_eq_getElem_cons hj]
  rw [List.flatMap_append, List.flatMap_cons]

theorem jpakeRecords_take_succ {rs : List ByteString} {j : Nat} (hj : j < rs.length) :
    (rs.take (j + 1)).flatMap jpakeRecord =
      (rs.take j).flatMap jpakeRecord ++ jpakeRecord rs[j] := by
  rw [List.take_succ_eq_append_getElem hj, List.flatMap_append, List.flatMap_cons,
    List.flatMap_nil, List.append_nil]

theorem take_storeAt_content (data : ByteString) {buffer : ByteString} {off : Nat}
    (h : off ≤ buffer.length) :
    (storeAt buffer off data).take (off + data.length) = buffer.take off ++ data := by
  have hlen : (buffer.take off ++ data).length = off + data.length := by
    rw [List.length_append, List.length_take, Nat.min_eq_left h]
  rw [storeAt, List.take_left' hlen]

/-- The buffer holds the records `rs` behind a header, and `j` of them have been sent. -/
structure HoldsRound (op : MbedtlsPsaPakeOperation) (header : ByteString)
    (rs : List ByteString) (j : Nat) : Prop where
  buffer : ∃ rest, op.buffer = header ++ rs.flatMap jpakeRecord ++ rest
  bufferLength : op.bufferLength = (header ++ rs.flatMap jpakeRecord).length
  fits : op.bufferLength ≤ mbedtlsPsaJpakeBufferSize
  bufferOffset : op.bufferOffset = (header ++ (rs.take j).flatMap jpakeRecord).length

section Slices

variable {op op' : MbedtlsPsaPakeOperation} {step : PsaCryptoDriverPakeStep}
  {jpake : Ecjpake} {header content parameters piece : ByteString} {rs : List ByteString}
  {j : Nat} {written : Option ByteString}

theorem output_slice (outputSize : Nat) (hwrite : pakeWriteRound op step jpake = .ok (op', written))
    (hholds : HoldsRound
      { op' with bufferOffset := op'.bufferOffset + pakeSkip step op'.role } header rs j)
    (hj : j < rs.length) (hlt : ∀ r ∈ rs, r.length < 2 ^ 8) :
    let slice := mbedtlsPsaPakeOutputInternal op step outputSize jpake
    slice.inBounds = true ∧ slice.written = written ∧ slice.received = none ∧
      (slice.status = .success → slice.output = rs[j] ∧
        slice.operation =
          if step = .x2ZkProof ∨ step = .x2sZkProof then op'.reset
          else { op' with
            bufferOffset := (header ++ (rs.take (j + 1)).flatMap jpakeRecord).length }) := by
  obtain ⟨⟨rest, hbuffer⟩, hlength, hfits, hoffset⟩ := hholds
  dsimp only at hbuffer hlength hfits hoffset
  have hr : rs[j].length < 256 := hlt rs[j] (List.getElem_mem hj)
  have hsplit : op'.buffer = (header ++ (rs.take j).flatMap jpakeRecord) ++
      (UInt8.ofNat rs[j].length :: (rs[j] ++ ((rs.drop (j + 1)).flatMap jpakeRecord ++ rest))) := by
    rw [hbuffer, jpakeRecords_split hj, jpakeRecord]
    simp only [List.append_assoc, List.cons_append]
  have hbyte : (op'.buffer.getD (op'.bufferOffset + pakeSkip step op'.role) 0).toNat =
      rs[j].length := by
    rw [hoffset, hsplit, List.getD_eq_getElem?_getD, List.getElem?_append_right (le_refl _),
      Nat.sub_self]
    exact Nat.mod_eq_of_lt hr
  have hnext : (header ++ (rs.take (j + 1)).flatMap jpakeRecord).length =
      op'.bufferOffset + pakeSkip step op'.role + 1 + rs[j].length := by
    rw [jpakeRecords_take_succ hj, ← List.append_assoc, List.length_append, hoffset,
      length_jpakeRecord]
    omega
  have hend : op'.bufferOffset + pakeSkip step op'.role + 1 + rs[j].length ≤
      op'.bufferLength := by
    rw [hlength, hoffset, jpakeRecords_split hj, jpakeRecord]
    simp only [List.length_append, List.length_cons]
    omega
  have hcut : slice op'.buffer (op'.bufferOffset + pakeSkip step op'.role + 1) rs[j].length =
      rs[j] := by
    rw [hoffset, hsplit, slice_tail (by simp), Nat.add_sub_cancel_left]
    exact List.take_left
  unfold mbedtlsPsaPakeOutputInternal
  rw [hwrite]
  dsimp only
  rw [hbyte, if_neg (by omega)]
  split
  · refine ⟨decide_eq_true (by omega), rfl, rfl, fun h => ?_⟩
    simp at h
  · refine ⟨decide_eq_true ⟨by omega, by omega⟩, rfl, rfl, fun _ => ⟨hcut, ?_⟩⟩
    rw [hnext]
    rfl

theorem pakeAppendInput_content
    (hroom : op.bufferLength + 1 + piece.length ≤ op.buffer.length) :
    (pakeAppendInput op piece).buffer.take (pakeAppendInput op piece).bufferLength =
        op.buffer.take op.bufferLength ++ jpakeRecord piece ∧
      (pakeAppendInput op piece).buffer.length = op.buffer.length := by
  have hbyte : (storeAt op.buffer op.bufferLength [UInt8.ofNat piece.length]).length =
      op.buffer.length := length_storeAt (by simp; omega)
  constructor
  · have hfirst := take_storeAt_content [UInt8.ofNat piece.length]
      (show op.bufferLength ≤ op.buffer.length by omega)
    rw [List.length_singleton] at hfirst
    have hsecond := take_storeAt_content piece
      (show op.bufferLength + 1 ≤
        (storeAt op.buffer op.bufferLength [UInt8.ofNat piece.length]).length by omega)
    rw [hfirst, List.append_assoc] at hsecond
    exact hsecond
  · rw [← hbyte]
    exact length_storeAt (by rw [hbyte]; omega)

theorem input_slice (jpake : Ecjpake) (hsize : op.buffer.length = mbedtlsPsaJpakeBufferSize)
    (hlength : op.bufferLength = content.length)
    (hcontent : op.buffer.take op.bufferLength = content)
    (hroom : content.length + (pakeParameters step op.role).length + piece.length + 1 ≤
      mbedtlsPsaJpakeBufferSize) :
    let slice := mbedtlsPsaPakeInputInternal op step piece jpake
    let content' := content ++ pakeParameters step op.role ++ jpakeRecord piece
    slice.inBounds = true ∧ slice.written = none ∧ slice.operation.role = op.role ∧
      slice.operation.buffer.length = mbedtlsPsaJpakeBufferSize ∧
      (step = .x2ZkProof ∨ step = .x4sZkProof →
        slice.received = some content' ∧ slice.operation.bufferLength = 0) ∧
      (¬ (step = .x2ZkProof ∨ step = .x4sZkProof) →
        slice.received = none ∧ slice.status = .success ∧
          slice.operation.bufferLength = content'.length ∧
          slice.operation.buffer.take slice.operation.bufferLength = content') := by
  have hparameters : (storeAt op.buffer op.bufferLength (pakeParameters step op.role)).length =
      op.buffer.length := length_storeAt (by omega)
  have hbefore : (storeAt op.buffer op.bufferLength (pakeParameters step op.role)).take
      (op.bufferLength + (pakeParameters step op.role).length) =
        content ++ pakeParameters step op.role := by
    rw [take_storeAt_content _ (by omega), hcontent]
  have happend : ∀ op₁ : MbedtlsPsaPakeOperation,
      op₁.bufferLength = op.bufferLength + (pakeParameters step op.role).length →
      op₁.buffer = storeAt op.buffer op.bufferLength (pakeParameters step op.role) → _ :=
    fun op₁ hlength₁ hbuffer₁ => pakeAppendInput_content
      (show op₁.bufferLength + 1 + piece.length ≤ op₁.buffer.length by
        rw [hlength₁, hbuffer₁, hparameters]
        omega)
  obtain ⟨hstored, hstoredSize⟩ := happend
    { op with
        buffer := storeAt op.buffer op.bufferLength (pakeParameters step op.role)
        bufferLength := op.bufferLength + (pakeParameters step op.role).length } rfl rfl
  rw [hbefore] at hstored
  have hlen' : (content ++ pakeParameters step op.role ++ jpakeRecord piece).length =
      op.bufferLength + (pakeParameters step op.role).length + 1 + piece.length := by
    rw [List.length_append, List.length_append, length_jpakeRecord, hlength]
    omega
  unfold mbedtlsPsaPakeInputInternal
  dsimp only
  rw [if_neg (by omega), if_neg (by omega)]
  have hin : decide (op.bufferLength + (pakeParameters step op.role).length + 1 +
      piece.length ≤ mbedtlsPsaJpakeBufferSize) = true := decide_eq_true (by omega)
  split
  · next hone =>
    exact ⟨hin, rfl, rfl, by simp [pakeReadRound], fun _ => ⟨congrArg some hstored, rfl⟩,
      fun hnot => absurd (.inl hone) hnot⟩
  split
  · next htwo =>
    exact ⟨hin, rfl, rfl, by simp [pakeReadRound], fun _ => ⟨congrArg some hstored, rfl⟩,
      fun hnot => absurd (.inr htwo) hnot⟩
  · next hone htwo =>
    exact ⟨hin, rfl, rfl, hstoredSize.trans (hparameters.trans hsize),
      fun h => absurd h (by simp [hone, htwo]),
      fun _ => ⟨rfl, rfl, hlen'.symm, hstored⟩⟩

end Slices

/-! ## Sending -/

def startedRounds (m : Nat) : Nat := if m = 0 then 0 else if m ≤ 6 then 1 else 2

theorem startedRounds_mono (m : Nat) : startedRounds m ≤ startedRounds (m + 1) := by
  unfold startedRounds
  repeat' split
  all_goals omega

/-- After `m` pieces: the first records of the rounds so far, and the buffer holds the round under
way. -/
def SendsRounds (role : MbedtlsEcjpakeRole) (op : MbedtlsPsaPakeOperation) (m : Nat)
    (sent written : List ByteString) : Prop :=
  ∃ one two : List ByteString, one.length = 6 ∧ two.length = 3 ∧
    (∀ r ∈ one ++ two, r.length < 2 ^ 8) ∧ sent = (one ++ two).take m ∧
    written = (jpakeRounds role one two).take (startedRounds m) ∧
    (0 < m → m < 6 → HoldsRound op [] one m) ∧
    (6 < m → m < 9 → HoldsRound op (roundTwoHeader role) two (m - 6))

section Sending

variable {op op' : MbedtlsPsaPakeOperation} {step : PsaCryptoDriverPakeStep}
  {jpake : Ecjpake} {role : MbedtlsEcjpakeRole} {m : Nat}
  {sent written : List ByteString} {w : Option ByteString}

theorem written_holdsRound {header data : ByteString} {n : Nat} {records : List ByteString}
    (h : IsRound header n records data) :
    HoldsRound { op.written data with bufferOffset := header.length } header records 0 where
  buffer := ⟨op.buffer.drop (0 + data.length), by
    rw [← h.data_eq]
    rfl⟩
  bufferLength := by
    rw [← h.data_eq]
    rfl
  fits := h.fits
  bufferOffset := by simp

theorem length_written {data : ByteString}
    (hsize : op.buffer.length = mbedtlsPsaJpakeBufferSize)
    (h : data.length ≤ mbedtlsPsaJpakeBufferSize) :
    (op.written data).buffer.length = mbedtlsPsaJpakeBufferSize :=
  (length_storeAt (by omega)).trans hsize

def MbedtlsPsaPakeOperation.skipped (op : MbedtlsPsaPakeOperation)
    (step : PsaCryptoDriverPakeStep) : MbedtlsPsaPakeOperation :=
  { op with bufferOffset := op.bufferOffset + pakeSkip step op.role }

theorem pakeWriteRound_holds (h : SendsRounds role op m sent written) (hm : m < 9)
    (hstep : (jpakeSteps .output)[m]? = some step) (hwell : jpake.WellFormed role)
    (hsize : op.buffer.length = mbedtlsPsaJpakeBufferSize) (hrole : op.role = role)
    (hwrite : pakeWriteRound op step jpake = .ok (op', w)) :
    op'.role = role ∧ op'.buffer.length = mbedtlsPsaJpakeBufferSize ∧
    ∃ one two : List ByteString, one.length = 6 ∧ two.length = 3 ∧
      (∀ r ∈ one ++ two, r.length < 2 ^ 8) ∧ sent = (one ++ two).take m ∧
      written ++ w.toList = (jpakeRounds role one two).take (startedRounds (m + 1)) ∧
      (m < 6 → HoldsRound (op'.skipped step) [] one m) ∧
      (6 ≤ m → HoldsRound (op'.skipped step) (roundTwoHeader role) two (m - 6)) := by
  obtain ⟨one, two, hone, htwo, hlt, hsent, hwritten, hholdsOne, hholdsTwo⟩ := h
  rw [List.forall_mem_append] at hlt
  by_cases hzero : m = 0
  · -- round one is written
    subst hzero
    obtain rfl : PsaCryptoDriverPakeStep.x1KeyShare = step := by simpa [jpakeSteps] using hstep
    rw [pakeWriteRound, if_pos rfl] at hwrite
    split at hwrite
    · simp at hwrite
    next data hdata =>
    cases hwrite
    obtain ⟨records, hround⟩ := hwell.1 data hdata
    refine ⟨hrole, length_written hsize hround.fits, records, two, hround.length_eq, htwo,
      List.forall_mem_append.mpr ⟨hround.record_lt, hlt.2⟩, by simpa using hsent, ?_,
      fun _ => written_holdsRound hround, fun h => by omega⟩
    rw [hwritten]
    simp [startedRounds, jpakeRounds, hround.data_eq]
  by_cases hsix : m = 6
  · -- round two is written, and its header skipped
    subst hsix
    obtain rfl : PsaCryptoDriverPakeStep.x2sKeyShare = step := by simpa [jpakeSteps] using hstep
    rw [pakeWriteRound, if_neg (by simp), if_pos rfl] at hwrite
    split at hwrite
    · simp at hwrite
    next data hdata =>
    cases hwrite
    obtain ⟨records, hround⟩ := hwell.2 data hdata
    have hskip : pakeSkip .x2sKeyShare op.role = (roundTwoHeader role).length := by
      rw [hrole]
      cases role <;> rfl
    refine ⟨hrole, length_written hsize hround.fits, one, records, hone, hround.length_eq,
      List.forall_mem_append.mpr ⟨hlt.1, hround.record_lt⟩, ?_, ?_, fun h => by omega,
      fun _ => ?_⟩
    · rw [hsent, List.take_append_of_le_length (by omega), List.take_append_of_le_length (by omega)]
    · rw [hwritten]
      simp [startedRounds, jpakeRounds, hround.data_eq]
    · have hheld : HoldsRound
          { op.written data with bufferOffset := (roundTwoHeader role).length }
          (roundTwoHeader role) records 0 := written_holdsRound hround
      rw [← hskip] at hheld
      simpa [MbedtlsPsaPakeOperation.skipped, MbedtlsPsaPakeOperation.written] using hheld
  · -- inside a round nothing is written
    have hnot : step ≠ .x1KeyShare ∧ step ≠ .x2sKeyShare := by
      interval_cases m <;> simp_all [jpakeSteps] <;> subst hstep <;> simp
    rw [pakeWriteRound, if_neg hnot.1, if_neg hnot.2] at hwrite
    cases hwrite
    have hskip : op.skipped step = op := by
      simp [MbedtlsPsaPakeOperation.skipped, pakeSkip, hnot.2]
    have hsame : startedRounds m = startedRounds (m + 1) := by
      unfold startedRounds
      split_ifs <;> omega
    refine ⟨hrole, hsize, one, two, hone, htwo, List.forall_mem_append.mpr hlt, hsent, ?_,
      fun h => ?_, fun h => ?_⟩
    · rw [hwritten, Option.toList_none, List.append_nil, hsame]
    · rw [hskip]
      exact hholdsOne (by omega) h
    · rw [hskip]
      exact hholdsTwo (by omega) hm

def SentRounds (role : MbedtlsEcjpakeRole) (sent written : List ByteString) : Prop :=
  ∃ one two : List ByteString, one.length = 6 ∧ two.length = 3 ∧ sent <+: one ++ two ∧
    written <+: jpakeRounds role one two ∧ (1 ≤ sent.length → 1 ≤ written.length) ∧
    (7 ≤ sent.length → written.length = 2)

theorem sentRounds_of_take {one two : List ByteString} {k : Nat} (hone : one.length = 6)
    (htwo : two.length = 3) (hsent : sent = (one ++ two).take m)
    (hwritten : written = (jpakeRounds role one two).take k) (hk : startedRounds m ≤ k) :
    SentRounds role sent written := by
  have hlength : sent.length ≤ m := by
    rw [hsent, List.length_take]
    exact Nat.min_le_left _ _
  have hrounds : written.length = min k 2 := by
    rw [hwritten, List.length_take]
    rfl
  refine ⟨one, two, hone, htwo, hsent ▸ List.take_prefix _ _,
    hwritten ▸ List.take_prefix _ _, fun h => ?_, fun h => ?_⟩
  · have hstarted : 1 ≤ startedRounds m := by
      unfold startedRounds
      split_ifs <;> omega
    omega
  · have hstarted : startedRounds m = 2 := by
      unfold startedRounds
      rw [if_neg (by omega), if_neg (by omega)]
    omega

theorem SendsRounds.sentRounds (h : SendsRounds role op m sent written) :
    SentRounds role sent written := by
  obtain ⟨one, two, hone, htwo, _, hsent, hwritten, _⟩ := h
  exact sentRounds_of_take hone htwo hsent hwritten (le_refl _)

theorem output_step (outputSize : Nat) (h : SendsRounds role op m sent written) (hm : m < 9)
    (hstep : (jpakeSteps .output)[m]? = some step) (hwell : jpake.WellFormed role)
    (hsize : op.buffer.length = mbedtlsPsaJpakeBufferSize) (hrole : op.role = role) :
    let slice := mbedtlsPsaPakeOutputInternal op step outputSize jpake
    slice.inBounds = true ∧ slice.received = none ∧
      (slice.status = .success →
        SendsRounds role slice.operation (m + 1) (sent ++ [slice.output])
            (written ++ slice.written.toList) ∧
          slice.operation.role = role ∧
          slice.operation.buffer.length = mbedtlsPsaJpakeBufferSize ∧
          (pendingPieces (m + 1) = 0 → slice.operation.bufferLength = 0)) ∧
      (slice.status ≠ .success → SentRounds role sent (written ++ slice.written.toList)) := by
  cases hwrite : pakeWriteRound op step jpake with
  | error e =>
    have hslice : mbedtlsPsaPakeOutputInternal op step outputSize jpake =
        { status := e.status, operation := op, output := [], written := none
          received := none, inBounds := true } := by
      unfold mbedtlsPsaPakeOutputInternal
      rw [hwrite]
    rw [hslice]
    refine ⟨rfl, rfl, fun hok => absurd hok e.ne_success, fun _ => ?_⟩
    rw [Option.toList_none, List.append_nil]
    exact h.sentRounds
  | ok result =>
    obtain ⟨hrole', hsize', one, two, hone, htwo, hlt, hsent, hwritten, hone', htwo'⟩ :=
      pakeWriteRound_holds h hm hstep hwell hsize hrole hwrite
    have hstarted : startedRounds m ≤ startedRounds (m + 1) := startedRounds_mono m
    have hfailed := sentRounds_of_take hone htwo hsent hwritten hstarted
    have hreset : step = .x2ZkProof ∨ step = .x2sZkProof ↔ m = 5 ∨ m = 8 := by
      interval_cases m <;> simp_all [jpakeSteps] <;> subst hstep <;> simp
    rw [List.forall_mem_append] at hlt
    rcases Nat.lt_or_ge m 6 with hlow | hhigh
    · have hj : m < one.length := by omega
      have hheld := hone' hlow
      obtain ⟨hin, hw, hreceived, hsuccess⟩ := output_slice outputSize hwrite hheld hj hlt.1
      refine ⟨hin, hreceived, fun hok => ?_, fun _ => hw ▸ hfailed⟩
      obtain ⟨houtput, hoperation⟩ := hsuccess hok
      have hnext : sent ++ [one[m]] = (one ++ two).take (m + 1) := by
        rw [List.take_succ_eq_append_getElem (by rw [List.length_append]; omega), hsent,
          List.getElem_append_left hj]
      rw [hoperation, hw, houtput]
      split
      · next hlast =>
        have hfive : m = 5 := by
          rcases hreset.mp hlast with hfive | height
          · exact hfive
          · omega
        refine ⟨⟨one, two, hone, htwo, List.forall_mem_append.mpr hlt, hnext, hwritten,
          fun _ h => by omega, fun h => by omega⟩, hrole', ?_, fun _ => rfl⟩
        simp [MbedtlsPsaPakeOperation.reset]
      · next hnot =>
        have hfive : m ≠ 5 := fun h => hnot (hreset.mpr (.inl h))
        refine ⟨⟨one, two, hone, htwo, List.forall_mem_append.mpr hlt, hnext, hwritten,
          fun _ _ => ⟨hheld.buffer, hheld.bufferLength, hheld.fits, rfl⟩,
          fun h => by omega⟩, hrole', hsize', fun hpending => ?_⟩
        rw [pendingPieces, if_pos (by omega)] at hpending
        omega
    · have hj : m - 6 < two.length := by omega
      have hheld := htwo' hhigh
      obtain ⟨hin, hw, hreceived, hsuccess⟩ := output_slice outputSize hwrite hheld hj hlt.2
      refine ⟨hin, hreceived, fun hok => ?_, fun _ => hw ▸ hfailed⟩
      obtain ⟨houtput, hoperation⟩ := hsuccess hok
      have hnext : sent ++ [two[m - 6]] = (one ++ two).take (m + 1) := by
        rw [List.take_succ_eq_append_getElem (by rw [List.length_append]; omega), hsent,
          List.getElem_append_right (by omega)]
        simp only [hone]
      rw [hoperation, hw, houtput]
      split
      · next hlast =>
        have height : m = 8 := by
          rcases hreset.mp hlast with hfive | height
          · omega
          · exact height
        refine ⟨⟨one, two, hone, htwo, List.forall_mem_append.mpr hlt, hnext, hwritten,
          fun _ h => by omega, fun _ h => by omega⟩, hrole', ?_, fun _ => rfl⟩
        simp [MbedtlsPsaPakeOperation.reset]
      · next hnot =>
        have height : m ≠ 8 := fun h => hnot (hreset.mpr (.inr h))
        have hindex : m + 1 - 6 = m - 6 + 1 := by omega
        refine ⟨⟨one, two, hone, htwo, List.forall_mem_append.mpr hlt, hnext, hwritten,
          fun _ h => by omega, fun _ _ => ?_⟩, hrole', hsize', fun hpending => ?_⟩
        · rw [hindex]
          exact ⟨hheld.buffer, hheld.bufferLength, hheld.fits, rfl⟩
        · rw [pendingPieces, if_neg (by omega), if_pos (by omega)] at hpending
          omega

end Sending

/-! ## Receiving -/

def completeRounds (n : Nat) : Nat := if n < 6 then 0 else if n < 9 then 1 else 2

def assembledRounds (sender : MbedtlsEcjpakeRole) (taken : List ByteString) :
    List ByteString :=
  (jpakeRounds sender (taken.take 6) (taken.drop 6)).take (completeRounds taken.length)

def takenContent (sender : MbedtlsEcjpakeRole) (taken : List ByteString) : ByteString :=
  if taken.length < 6 then taken.flatMap jpakeRecord
  else if taken.length = 6 ∨ taken.length = 9 then []
  else roundTwoHeader sender ++ (taken.drop 6).flatMap jpakeRecord

/-- The largest piece at index `k` that the core accepts. -/
def pieceMax (k : Nat) : Nat := if k % 3 = 2 then 32 else 65

def pieceRoom (k : Nat) : Nat := 165 * (k / 3) + 66 * (k % 3)

structure HoldsTaken (sender : MbedtlsEcjpakeRole) (op : MbedtlsPsaPakeOperation)
    (taken : List ByteString) : Prop where
  bufferLength : op.bufferLength = (takenContent sender taken).length
  content : op.buffer.take op.bufferLength = takenContent sender taken

section Receiving

variable {op : MbedtlsPsaPakeOperation} {step : PsaCryptoDriverPakeStep} {jpake : Ecjpake}
  {role sender : MbedtlsEcjpakeRole} {taken received : List ByteString} {piece : ByteString}

theorem pakeParameters_eq (role : MbedtlsEcjpakeRole) (hn : taken.length < 9)
    (hstep : (jpakeSteps .input)[taken.length]? = some step) :
    pakeParameters step role = if taken.length = 6 then roundTwoHeader role.other else [] := by
  by_cases hsix : taken.length = 6
  · rw [hsix] at hstep
    obtain rfl : PsaCryptoDriverPakeStep.x4sKeyShare = step := by
      simpa [jpakeSteps] using hstep
    rw [if_pos hsix]
    cases role <;> rfl
  · rw [if_neg hsix]
    refine if_neg fun h => ?_
    obtain ⟨rfl, _⟩ := h
    generalize taken.length = n at *
    interval_cases n <;> simp_all [jpakeSteps]

theorem takenContent_append (hn : taken.length < 9) :
    (takenContent sender taken ++
        (if taken.length = 6 then roundTwoHeader sender else [])) ++ jpakeRecord piece =
      if taken.length < 6 then (taken ++ [piece]).flatMap jpakeRecord
      else roundTwoHeader sender ++ ((taken ++ [piece]).drop 6).flatMap jpakeRecord := by
  rcases Nat.lt_trichotomy taken.length 6 with hlow | hsix | hhigh
  · rw [takenContent, if_pos hlow, if_neg (by omega), if_pos hlow, List.flatMap_append,
      List.append_nil]
    simp
  · rw [takenContent, if_neg (by omega), if_pos (.inl hsix), if_pos hsix, if_neg (by omega),
      List.drop_append_of_le_length (by omega), List.drop_eq_nil_of_le (by omega)]
    simp
  · rw [takenContent, if_neg (by omega), if_neg (by omega), if_neg (by omega),
      if_neg (by omega), List.drop_append_of_le_length (by omega), List.flatMap_append]
    simp

theorem takenContent_snoc (sender : MbedtlsEcjpakeRole) (piece : ByteString)
    (hn : taken.length < 9) (hfive : taken.length ≠ 5)
    (height : taken.length ≠ 8) :
    takenContent sender (taken ++ [piece]) =
      (takenContent sender taken ++
        (if taken.length = 6 then roundTwoHeader sender else [])) ++ jpakeRecord piece := by
  rw [takenContent_append hn, takenContent, List.length_append, List.length_singleton]
  rcases Nat.lt_or_ge taken.length 6 with hlow | hhigh
  · rw [if_pos (by omega), if_pos hlow]
  · rw [if_neg (by omega), if_neg (by omega), if_neg (by omega)]

theorem takenContent_complete (h : taken.length = 5 ∨ taken.length = 8) :
    takenContent sender (taken ++ [piece]) = [] := by
  rw [takenContent, List.length_append, List.length_singleton, if_neg (by omega), if_pos (by omega)]

theorem assembledRounds_snoc (hn : taken.length < 9) :
    assembledRounds sender (taken ++ [piece]) =
      if taken.length = 5 ∨ taken.length = 8 then
        assembledRounds sender taken ++
          [(takenContent sender taken ++
            (if taken.length = 6 then roundTwoHeader sender else [])) ++ jpakeRecord piece]
      else assembledRounds sender taken := by
  rw [takenContent_append hn]
  unfold assembledRounds completeRounds jpakeRounds
  rw [List.length_append, List.length_singleton]
  rcases Nat.lt_trichotomy taken.length 5 with hlow | hfive | hhigh
  · rw [if_pos (by omega), if_neg (by omega), if_pos (by omega)]
    rfl
  · have hall : (taken ++ [piece]).take 6 = taken ++ [piece] :=
      List.take_of_length_le (by simp [hfive])
    rw [if_neg (by omega), if_pos (by omega), if_pos (.inl hfive), if_pos (by omega),
      if_pos (by omega), hall]
    rfl
  · have hfirst : (taken ++ [piece]).take 6 = taken.take 6 :=
      List.take_append_of_le_length (by omega)
    rw [hfirst, if_neg (by omega), if_neg (show ¬ taken.length < 6 by omega)]
    by_cases height : taken.length = 8
    · rw [if_neg (by omega), if_pos (.inr height), if_pos hn, if_neg (by omega)]
      rfl
    · rw [if_pos (by omega), if_neg (by omega), if_pos (by omega)]
      rfl

theorem input_step (jpake : Ecjpake) (hn : taken.length < 9)
    (hstep : (jpakeSteps .input)[taken.length]? = some step)
    (hheld : HoldsTaken role.other op taken)
    (hroom : (takenContent role.other taken).length ≤ 3 + pieceRoom (pendingPieces taken.length))
    (hpiece : piece.length ≤ pieceMax taken.length)
    (hsize : op.buffer.length = mbedtlsPsaJpakeBufferSize) (hrole : op.role = role) :
    let slice := mbedtlsPsaPakeInputInternal op step piece jpake
    slice.inBounds = true ∧ slice.written = none ∧
      slice.operation.role = role ∧
      slice.operation.buffer.length = mbedtlsPsaJpakeBufferSize ∧
      HoldsTaken role.other slice.operation (taken ++ [piece]) ∧
      (takenContent role.other (taken ++ [piece])).length ≤
        3 + pieceRoom (pendingPieces (taken ++ [piece]).length) ∧
      assembledRounds role.other taken ++ slice.received.toList =
        assembledRounds role.other (taken ++ [piece]) ∧
      (slice.status ≠ .success → slice.received ≠ none) := by
  have hparameters := pakeParameters_eq role hn hstep
  have hheader : (roundTwoHeader role.other).length ≤ 3 := by
    cases role <;> decide
  have hadded : (pakeParameters step op.role).length ≤ 3 := by
    rw [hrole, hparameters]
    split
    · exact hheader
    · simp
  have hpending : pieceRoom (pendingPieces taken.length) + pieceMax taken.length + 1 ≤ 330 := by
    generalize taken.length = n at hn
    interval_cases n <;> decide
  have hfits : (takenContent role.other taken).length + (pakeParameters step op.role).length +
      piece.length + 1 ≤ mbedtlsPsaJpakeBufferSize := by
    unfold mbedtlsPsaJpakeBufferSize
    omega
  have hreads : step = .x2ZkProof ∨ step = .x4sZkProof ↔
      taken.length = 5 ∨ taken.length = 8 := by
    generalize taken.length = n at hn hstep
    interval_cases n <;> simp_all [jpakeSteps] <;> subst hstep <;> simp
  obtain ⟨hin, hwritten, hrole', hsize', hread, hkeep⟩ :=
    input_slice jpake hsize hheld.bufferLength hheld.content hfits
  rw [hrole, hparameters] at hread hkeep
  refine ⟨hin, hwritten, hrole'.trans hrole, hsize', ?_⟩
  rw [assembledRounds_snoc hn]
  by_cases hlast : taken.length = 5 ∨ taken.length = 8
  · obtain ⟨hreceived, hlength⟩ := hread (hreads.mpr hlast)
    refine ⟨⟨?_, ?_⟩, ?_, ?_, ?_⟩
    · rw [takenContent_complete hlast, hlength]
      rfl
    · rw [takenContent_complete hlast, hlength]
      rfl
    · rw [takenContent_complete hlast]
      simp
    · rw [if_pos hlast, hreceived]
      rfl
    · rw [hreceived]
      simp
  · obtain ⟨hreceived, hok, hlength, hcontent⟩ := hkeep fun h => hlast (hreads.mp h)
    rw [not_or] at hlast
    have hsnoc := takenContent_snoc role.other piece hn hlast.1 hlast.2
    refine ⟨⟨?_, ?_⟩, ?_, ?_, fun h => absurd hok h⟩
    · rw [hsnoc]
      exact hlength
    · rw [hsnoc]
      exact hcontent
    · have hnext : pieceRoom (pendingPieces taken.length) + pieceMax taken.length + 1 ≤
          pieceRoom (pendingPieces (taken ++ [piece]).length) := by
        rw [List.length_append, List.length_singleton]
        generalize taken.length = n at hn hlast
        interval_cases n <;> simp_all <;> decide
      rw [hsnoc, List.length_append, List.length_append, length_jpakeRecord]
      by_cases hsix : taken.length = 6
      · have hempty : (takenContent role.other taken).length = 0 := by
          rw [takenContent, if_neg (by omega), if_pos (.inl hsix)]
          rfl
        rw [if_pos hsix]
        omega
      · rw [if_neg hsix, List.length_nil]
        omega
    · rw [if_neg (by omega), hreceived, Option.toList_none, List.append_nil]

theorem takenContent_boundary
    (h : taken.length = 0 ∨ taken.length = 6 ∨ taken.length = 9) :
    takenContent sender taken = [] := by
  rcases h with hzero | hrest
  · rw [List.length_eq_zero_iff.mp hzero]
    rfl
  · rw [takenContent, if_neg (by omega), if_pos hrest]

end Receiving

/-! ## Runs of one party -/

section Party

variable {alg : PsaAlgorithm} {role : MbedtlsEcjpakeRole} {party : JpakeParty}
  {state state' : Option JpakeParty} {tr : List (JpakeAction × JpakeObservation)}
  {a : JpakeAction} {o : JpakeObservation} {e : JpakeAction × JpakeObservation}

theorem pieces_refused (tr : List (JpakeAction × JpakeObservation)) (a : JpakeAction)
    (ho : o.slice = none) :
    sentPieces (tr ++ [(a, o)]) = sentPieces tr ∧
      takenPieces (tr ++ [(a, o)]) = takenPieces tr ∧
      writtenRounds (tr ++ [(a, o)]) = writtenRounds tr ∧
      receivedRounds (tr ++ [(a, o)]) = receivedRounds tr := by
  obtain ⟨status, slice⟩ := o
  obtain rfl : slice = none := ho
  cases a <;> simp [sentPieces, takenPieces, writtenRounds, receivedRounds,
    JpakeAction.sent?, JpakeAction.taken?]

theorem pieces_output (tr : List (JpakeAction × JpakeObservation)) (slice : PakeSlice)
    (he : ∃ step outputSize jpake status,
      e = (.output step outputSize jpake, { status := status, slice := some slice })) :
    sentPieces (tr ++ [e]) =
        sentPieces tr ++ (if slice.status = .success then [slice.output] else []) ∧
      takenPieces (tr ++ [e]) = takenPieces tr ∧
      writtenRounds (tr ++ [e]) = writtenRounds tr ++ slice.written.toList ∧
      receivedRounds (tr ++ [e]) = receivedRounds tr ++ slice.received.toList := by
  obtain ⟨_, _, _, _, rfl⟩ := he
  refine ⟨?_, ?_, ?_, ?_⟩
  · by_cases hok : slice.status = .success <;> simp [sentPieces, JpakeAction.sent?, hok]
  · simp [takenPieces, JpakeAction.taken?]
  · cases hw : slice.written <;> simp [writtenRounds, hw]
  · cases hr : slice.received <;> simp [receivedRounds, hr]

theorem pieces_input (tr : List (JpakeAction × JpakeObservation)) (slice : PakeSlice)
    (piece : ByteString)
    (he : ∃ step jpake status,
      e = (.input step piece jpake, { status := status, slice := some slice })) :
    sentPieces (tr ++ [e]) = sentPieces tr ∧
      takenPieces (tr ++ [e]) = takenPieces tr ++ [piece] ∧
      writtenRounds (tr ++ [e]) = writtenRounds tr ++ slice.written.toList ∧
      receivedRounds (tr ++ [e]) = receivedRounds tr ++ slice.received.toList := by
  obtain ⟨_, _, _, rfl⟩ := he
  refine ⟨?_, ?_, ?_, ?_⟩
  · simp [sentPieces, JpakeAction.sent?]
  · simp [takenPieces, JpakeAction.taken?]
  · cases hw : slice.written <;> simp [writtenRounds, hw]
  · cases hr : slice.received <;> simp [receivedRounds, hr]

def FailsAtRead (e : JpakeAction × JpakeObservation) : Prop :=
  ∀ step piece jpake slice, e.1 = .input step piece jpake → e.2.slice = some slice →
    slice.status ≠ .success → slice.received ≠ none

structure Transfers (role : MbedtlsEcjpakeRole)
    (tr : List (JpakeAction × JpakeObservation)) : Prop where
  inBounds : ∀ e ∈ tr, ∀ slice ∈ e.2.slice, slice.inBounds = true
  failsAtRead : ∀ e ∈ tr, FailsAtRead e
  sent : SentRounds role (sentPieces tr) (writtenRounds tr)
  received : receivedRounds tr = assembledRounds role.other (takenPieces tr)

structure PartyInv (role : MbedtlsEcjpakeRole)
    (tr : List (JpakeAction × JpakeObservation)) (party : JpakeParty) : Prop where
  ok : party.stage.Ok
  turn : party.stage.Turn
  role_eq : party.driver.role = role
  size : party.driver.buffer.length = mbedtlsPsaJpakeBufferSize
  sends : SendsRounds role party.driver (party.stage.done .output) (sentPieces tr)
    (writtenRounds tr)
  length_taken : (takenPieces tr).length = party.stage.done .input
  room : (takenContent role.other (takenPieces tr)).length ≤
    3 + pieceRoom (pendingPieces (takenPieces tr).length)
  holds : pendingPieces (party.stage.done .output) = 0 →
    HoldsTaken role.other party.driver (takenPieces tr)

def JpakeInv (role : MbedtlsEcjpakeRole) (tr : List (JpakeAction × JpakeObservation))
    (state : Option JpakeParty) : Prop :=
  Transfers role tr ∧ ∀ party, state = some party → PartyInv role tr party

theorem forall_mem_snoc {P : JpakeAction × JpakeObservation → Prop}
    (h : ∀ e ∈ tr, P e) (he : P e) : ∀ e' ∈ tr ++ [e], P e' := by
  intro e' hmem
  rcases List.mem_append.mp hmem with hmem | hmem
  · exact h e' hmem
  · rwa [List.mem_singleton.mp hmem]

theorem Transfers.refused (h : Transfers role tr) (ho : o.slice = none) :
    JpakeInv role (tr ++ [(a, o)]) none := by
  obtain ⟨hsent, htaken, hwritten, hreceived⟩ := pieces_refused tr a ho
  refine ⟨⟨forall_mem_snoc h.inBounds ?_, forall_mem_snoc h.failsAtRead ?_, ?_, ?_⟩, by simp⟩
  · intro slice hslice
    simp [ho] at hslice
  · intro _ _ _ slice _ hslice
    simp [ho] at hslice
  · rw [hsent, hwritten]
    exact h.sent
  · rw [hreceived, htaken]
    exact h.received

theorem SendsRounds.of_boundary {op op' : MbedtlsPsaPakeOperation} {m : Nat}
    {sent written : List ByteString} (h : SendsRounds role op m sent written)
    (hm : m = 0 ∨ m = 6 ∨ m = 9) : SendsRounds role op' m sent written := by
  obtain ⟨one, two, hone, htwo, hlt, hsent, hwritten, _⟩ := h
  exact ⟨one, two, hone, htwo, hlt, hsent, hwritten, fun _ _ => by omega, fun _ _ => by omega⟩

theorem jpakeInv_output (alg : PsaAlgorithm) (step : PsaPakeStep) (outputSize : Nat)
    {jpake : Ecjpake} (htransfers : Transfers role tr) (hparty : PartyInv role tr party)
    (hwell : jpake.WellFormed role) :
    JpakeInv role
      (tr ++ [(.output step outputSize jpake,
        (jpakePartyStep alg party (.output step outputSize jpake)).2)])
      (jpakePartyStep alg party (.output step outputSize jpake)).1 := by
  simp only [jpakePartyStep]
  split
  · exact htransfers.refused rfl
  rcases hprologue : psaJpakePrologue party.stage step .output with ⟨prologue, stage⟩
  split
  · exact htransfers.refused rfl
  next hok =>
  rw [not_not] at hok
  subst hok
  obtain ⟨hready, hdone⟩ := PsaJpakeComputationStage.prologue_ready hparty.ok hprologue
  obtain ⟨hbetween, _⟩ := PsaJpakeComputationStage.prologue_turn hparty.turn hprologue
  have hlt := hready.done_lt
  have hstep := hready.driverStep
  rw [hdone] at hlt hstep
  have hboundary := hready.other_boundary hbetween
  change stage.done .input = 0 ∨ stage.done .input = 6 ∨ stage.done .input = 9 at hboundary
  rw [hdone, ← hparty.length_taken] at hboundary
  have hslice := output_step outputSize hparty.sends hlt hstep hwell hparty.size hparty.role_eq
  generalize mbedtlsPsaPakeOutputInternal party.driver
    (convertJpakeComputationStageToDriverStep stage) outputSize jpake = slice at hslice
  obtain ⟨hin, hnone, hsuccess, hfailure⟩ := hslice
  obtain ⟨hsent, htaken, hwritten, hreceived⟩ :=
    pieces_output tr slice ⟨step, outputSize, jpake, slice.status, rfl⟩
  rw [hnone, Option.toList_none, List.append_nil] at hreceived
  have hinBounds := forall_mem_snoc (e := (JpakeAction.output step outputSize jpake,
    { status := slice.status, slice := some slice })) htransfers.inBounds
      (by rintro _ ⟨⟩; exact hin)
  have hread := forall_mem_snoc (e := (JpakeAction.output step outputSize jpake,
    { status := slice.status, slice := some slice })) htransfers.failsAtRead
      (fun _ _ _ _ h => by cases h)
  unfold jpakeStepExit
  by_cases hok : slice.status = .success
  · rw [if_pos hok]
    rw [if_pos hok] at hsent
    obtain ⟨hsends, hrole, hsize, hempty⟩ := hsuccess hok
    obtain ⟨hok', hown, hother⟩ := hready.epilogue
    change (psaJpakeEpilogue stage .output).done .input = stage.done .input at hother
    rw [hdone] at hown hother
    refine ⟨⟨hinBounds, hread, ?_, ?_⟩, ?_⟩
    · rw [hsent, hwritten]
      exact hsends.sentRounds
    · rw [hreceived, htaken]
      exact htransfers.received
    rintro _ ⟨⟩
    refine ⟨hok', hready.epilogue_turn hbetween, hrole, hsize, ?_, ?_, ?_, fun hpending => ?_⟩
    · rw [hown, hsent, hwritten]
      exact hsends
    · rw [htaken, hother]
      exact hparty.length_taken
    · rw [htaken]
      exact hparty.room
    rw [hown] at hpending
    rw [htaken]
    constructor
    · rw [takenContent_boundary hboundary, hempty hpending]
      rfl
    · rw [takenContent_boundary hboundary, hempty hpending]
      rfl
  · rw [if_neg hok]
    rw [if_neg hok, List.append_nil] at hsent
    refine ⟨⟨hinBounds, hread, ?_, ?_⟩, by simp⟩
    · rw [hsent, hwritten]
      exact hfailure hok
    · rw [hreceived, htaken]
      exact htransfers.received

theorem length_le_pieceMax {stage : PsaJpakeComputationStage} {piece : ByteString}
    (hready : stage.Ready .input)
    (h : piece.length ≤ psaPakeInputSize alg jpakePrimitive stage.step) :
    piece.length ≤ pieceMax (stage.done .input) := by
  refine h.trans ?_
  have hstep := hready.step_toNat
  unfold psaPakeInputSize pieceMax
  split
  · split
    · next hkey =>
      rw [hkey] at hstep
      rw [if_neg (by simp [psaPakeStepKeyShare] at hstep; omega)]
    split
    · next hpublic =>
      rw [hpublic] at hstep
      rw [if_neg (by simp [psaPakeStepZkPublic] at hstep; omega)]
    · split <;> omega
  · exact Nat.zero_le _

theorem jpakeInv_input (alg : PsaAlgorithm) (step : PsaPakeStep) (piece : ByteString)
    (jpake : Ecjpake) (htransfers : Transfers role tr) (hparty : PartyInv role tr party) :
    JpakeInv role
      (tr ++ [(.input step piece jpake, (jpakePartyStep alg party (.input step piece jpake)).2)])
      (jpakePartyStep alg party (.input step piece jpake)).1 := by
  simp only [jpakePartyStep]
  split
  · exact htransfers.refused rfl
  next hlimit =>
  rw [not_or, Nat.not_lt] at hlimit
  rcases hprologue : psaJpakePrologue party.stage step .input with ⟨prologue, stage⟩
  split
  · exact htransfers.refused rfl
  next hok =>
  rw [not_not] at hok
  subst hok
  obtain ⟨hready, hdone⟩ := PsaJpakeComputationStage.prologue_ready hparty.ok hprologue
  obtain ⟨hbetween, hsame⟩ := PsaJpakeComputationStage.prologue_turn hparty.turn hprologue
  subst hsame
  have hpiece := length_le_pieceMax hready hlimit.2
  have hlt := hready.done_lt
  have hstep := hready.driverStep
  have hboundary := hready.other_boundary hbetween
  rw [hdone] at hboundary
  rw [hdone, ← hparty.length_taken] at hpiece hlt hstep
  have hslice := input_step jpake hlt hstep
    (hparty.holds (pendingPieces_eq_zero hboundary)) hparty.room hpiece hparty.size
    hparty.role_eq
  generalize mbedtlsPsaPakeInputInternal party.driver
    (convertJpakeComputationStageToDriverStep stage) piece jpake = slice at hslice
  obtain ⟨hin, hnone, hrole, hsize, hholds, hroom, hassembled, hfailure⟩ := hslice
  obtain ⟨hsent, htaken, hwritten, hreceived⟩ :=
    pieces_input tr slice piece ⟨stage.step, jpake, slice.status, rfl⟩
  rw [hnone, Option.toList_none, List.append_nil] at hwritten
  have htransfers' : Transfers role (tr ++ [(.input stage.step piece jpake,
      { status := slice.status, slice := some slice })]) := by
    refine ⟨forall_mem_snoc htransfers.inBounds ?_, forall_mem_snoc htransfers.failsAtRead ?_,
      ?_, ?_⟩
    · rintro _ ⟨⟩
      exact hin
    · rintro _ _ _ _ _ ⟨⟩
      exact hfailure
    · rw [hsent, hwritten]
      exact htransfers.sent
    · rw [hreceived, htaken, ← hassembled, htransfers.received]
  unfold jpakeStepExit
  by_cases hok : slice.status = .success
  · rw [if_pos hok]
    obtain ⟨hok', hown, hother⟩ := hready.epilogue
    change (psaJpakeEpilogue stage .input).done .output = stage.done .output at hother
    rw [hdone] at hown hother
    refine ⟨htransfers', ?_⟩
    rintro _ ⟨⟩
    refine ⟨hok', hready.epilogue_turn hbetween, hrole, hsize, ?_, ?_, ?_, fun _ => ?_⟩
    · rw [hother, hsent, hwritten]
      exact hparty.sends.of_boundary hboundary
    · rw [htaken, hown, List.length_append, List.length_singleton, hparty.length_taken]
    · rw [htaken]
      exact hroom
    · rw [htaken]
      exact hholds
  · rw [if_neg hok]
    exact ⟨htransfers', by simp⟩

theorem jpakeInv_start : JpakeInv role [] (JpakeParty.start role) := by
  have hsends : SendsRounds role (.setup role) 0 [] [] :=
    ⟨List.replicate 6 [], List.replicate 3 [], rfl, rfl, by simp, rfl, rfl,
      fun h => absurd h (by decide), fun h => absurd h (by decide)⟩
  refine ⟨⟨by simp, by simp, hsends.sentRounds, rfl⟩, ?_⟩
  rintro _ ⟨⟩
  refine ⟨PsaJpakeComputationStage.ok_start, fun h => absurd ⟨rfl, rfl, rfl⟩ h, rfl,
    List.length_replicate, ?_, ?_, Nat.zero_le _, fun _ => ⟨rfl, rfl⟩⟩
  · rw [PsaJpakeComputationStage.done_start]
    exact hsends
  · rw [PsaJpakeComputationStage.done_start]
    rfl

theorem jpakeInv_run (h : Machine.Run (jpakeMachine alg) (JpakeParty.start role) tr state)
    (hwell : ∀ e ∈ tr, e.1.jpake.WellFormed role) : JpakeInv role tr state := by
  refine Machine.Run.invariant (I := fun tr state => JpakeInv role tr state)
    (P := fun e => e.1.jpake.WellFormed role) jpakeInv_start ?_ h hwell
  intro tr state a state' o hinv hformed hstep
  unfold jpakeMachine at hstep
  cases state with
  | none => simp at hstep
  | some party =>
    rw [Option.map_some, Option.some.injEq] at hstep
    have hparty := hinv.2 party rfl
    cases a with
    | output step outputSize jpake =>
      have hwell' : jpake.WellFormed role := hformed
      have hnext := jpakeInv_output alg step outputSize hinv.1 hparty hwell'
      rwa [hstep] at hnext
    | input step piece jpake =>
      have hnext := jpakeInv_input alg step piece jpake hinv.1 hparty
      rwa [hstep] at hnext

end Party

/-! ## Two parties -/

theorem MbedtlsEcjpakeRole.other_other (role : MbedtlsEcjpakeRole) :
    role.other.other = role := by
  cases role <;> rfl

theorem assembledRounds_eq {role : MbedtlsEcjpakeRole} {sent written taken : List ByteString}
    (h : SentRounds role sent written) (htaken : taken <+: sent) :
    assembledRounds role taken = written.take (completeRounds taken.length) := by
  obtain ⟨one, two, hone, htwo, hsent, hwritten, hfirst, hsecond⟩ := h
  have hall := htaken.trans hsent
  have hle := htaken.length_le
  have hnine : taken.length ≤ 9 := by
    have hlength := hall.length_le
    rw [List.length_append] at hlength
    omega
  have htake : ∀ k ≤ written.length, written.take k = (jpakeRounds role one two).take k := by
    intro k hk
    obtain ⟨rest, hrest⟩ := hwritten
    rw [← hrest, List.take_append_of_le_length hk]
  have hpieces : taken = (one ++ two).take taken.length := List.prefix_iff_eq_take.mp hall
  unfold assembledRounds completeRounds
  rcases Nat.lt_or_ge taken.length 6 with hlow | hhigh
  · rw [if_pos hlow]
    rfl
  have hone' : taken.take 6 = one := by
    rw [hpieces, List.take_take, Nat.min_eq_left hhigh, List.take_append_of_le_length (by omega),
      List.take_of_length_le (by omega)]
  rcases Nat.lt_or_ge taken.length 9 with hlt | hge
  · rw [if_neg (by omega), if_pos hlt, htake 1 (hfirst (by omega)), hone']
    rfl
  have hlength : taken.length = 9 := by omega
  have htwo' : taken.drop 6 = two := by
    rw [hpieces, hlength, List.take_of_length_le (by rw [List.length_append]; omega),
      List.drop_left' hone]
  rw [if_neg (by omega), if_neg (by omega), htake 2 (by rw [hsecond (by omega)]), hone', htwo']

/-- **J-PAKE slicing and reassembly are inverse.** In every run of a party and of its peer, where
the peer takes the pieces that the party sent: it passes on the rounds that the party wrote, round
one after six pieces and both after nine. It refuses no piece, and no slice leaves the buffer. -/
theorem jpake_slices_inverse (alg : PsaAlgorithm) (role : MbedtlsEcjpakeRole)
    {tr tr' : List (JpakeAction × JpakeObservation)} {party peer : Option JpakeParty}
    (h : Machine.Run (jpakeMachine alg) (JpakeParty.start role) tr party)
    (h' : Machine.Run (jpakeMachine alg) (JpakeParty.start role.other) tr' peer)
    (hwell : ∀ e ∈ tr, e.1.jpake.WellFormed role)
    (hwell' : ∀ e ∈ tr', e.1.jpake.WellFormed role.other)
    (htaken : takenPieces tr' <+: sentPieces tr) :
    receivedRounds tr' = (writtenRounds tr).take (completeRounds (takenPieces tr').length) ∧
      (∀ e ∈ tr', FailsAtRead e) ∧
      ∀ e ∈ tr ++ tr', ∀ slice ∈ e.2.slice, slice.inBounds = true := by
  have hparty := (jpakeInv_run h hwell).1
  have hpeer := (jpakeInv_run h' hwell').1
  refine ⟨?_, hpeer.failsAtRead, ?_⟩
  · rw [hpeer.received, role.other_other]
    exact assembledRounds_eq hparty.sent htaken
  · intro e he
    rcases List.mem_append.mp he with he | he
    · exact hparty.inBounds e he
    · exact hpeer.inBounds e he

/-- A toy `mbedtls_ecjpake_context`: six records of one byte in round one, three in round two. -/
def toyEcjpake (role : MbedtlsEcjpakeRole) : Ecjpake where
  writeRoundOne := .ok ((List.replicate 6 [7]).flatMap jpakeRecord)
  writeRoundTwo := .ok (roundTwoHeader role ++ (List.replicate 3 [9]).flatMap jpakeRecord)
  readRoundOne := .success
  readRoundTwo := .success

theorem toyEcjpake_wellFormed (role : MbedtlsEcjpakeRole) :
    (toyEcjpake role).WellFormed role := by
  constructor
  · rintro _ ⟨⟩
    exact ⟨List.replicate 6 [7], rfl, rfl, by decide, by decide⟩
  · rintro _ ⟨⟩
    refine ⟨List.replicate 3 [9], rfl, rfl, by decide, ?_⟩
    cases role <;> decide

def pakeSteps : List PsaPakeStep := [psaPakeStepKeyShare, psaPakeStepZkPublic, psaPakeStepZkProof]

def toyOutput (step : PsaPakeStep) : JpakeAction := .output step 32 (toyEcjpake .client)

def toyInput (step : PsaPakeStep) : JpakeAction := .input step [7] (toyEcjpake .server)

theorem wellFormed_of_calls {role : MbedtlsEcjpakeRole} {steps : List PsaPakeStep}
    {tr : List (JpakeAction × JpakeObservation)} {call : PsaPakeStep → JpakeAction}
    (hcalls : tr.map Prod.fst = steps.map call)
    (h : ∀ step, (call step).jpake.WellFormed role) : ∀ e ∈ tr, e.1.jpake.WellFormed role := by
  intro e he
  have hcall := List.mem_map_of_mem (f := Prod.fst) he
  rw [hcalls] at hcall
  obtain ⟨step, -, hstep⟩ := List.mem_map.mp hcall
  rw [← hstep]
  exact h step

/-- The server reads the first round of the client as it was written. -/
theorem jpake_slices_inverse_round_one :
    ∃ tr tr' party peer,
      Machine.Run (jpakeMachine 0x0a000109) (JpakeParty.start .client) tr party ∧
        Machine.Run (jpakeMachine 0x0a000109) (JpakeParty.start .server) tr' peer ∧
        takenPieces tr' = sentPieces tr ∧
        receivedRounds tr' = [(List.replicate 6 [7]).flatMap jpakeRecord] := by
  have hrun : ∃ tr party,
      Machine.Run (jpakeMachine 0x0a000109) (JpakeParty.start .client) tr party ∧
        tr.map Prod.fst = (pakeSteps ++ pakeSteps).map toyOutput ∧
        sentPieces tr = List.replicate 6 [7] ∧
        writtenRounds tr = [(List.replicate 6 [7]).flatMap jpakeRecord] := by
    have h₁ : Machine.Run (jpakeMachine 0x0a000109) (JpakeParty.start .client)
        ([] ++ [(toyOutput psaPakeStepKeyShare, _)]) _ := Machine.Run.nil.snoc rfl
    have h₂ := h₁.snoc (a := toyOutput psaPakeStepZkPublic) rfl
    have h₃ := h₂.snoc (a := toyOutput psaPakeStepZkProof) rfl
    have h₄ := h₃.snoc (a := toyOutput psaPakeStepKeyShare) rfl
    have h₅ := h₄.snoc (a := toyOutput psaPakeStepZkPublic) rfl
    have h₆ := h₅.snoc (a := toyOutput psaPakeStepZkProof) rfl
    exact ⟨_, _, h₆, rfl, by decide, by decide⟩
  have hrun' : ∃ tr peer,
      Machine.Run (jpakeMachine 0x0a000109) (JpakeParty.start .server) tr peer ∧
        tr.map Prod.fst = (pakeSteps ++ pakeSteps).map toyInput ∧
        takenPieces tr = List.replicate 6 [7] := by
    have h₁ : Machine.Run (jpakeMachine 0x0a000109) (JpakeParty.start .server)
        ([] ++ [(toyInput psaPakeStepKeyShare, _)]) _ := Machine.Run.nil.snoc rfl
    have h₂ := h₁.snoc (a := toyInput psaPakeStepZkPublic) rfl
    have h₃ := h₂.snoc (a := toyInput psaPakeStepZkProof) rfl
    have h₄ := h₃.snoc (a := toyInput psaPakeStepKeyShare) rfl
    have h₅ := h₄.snoc (a := toyInput psaPakeStepZkPublic) rfl
    have h₆ := h₅.snoc (a := toyInput psaPakeStepZkProof) rfl
    exact ⟨_, _, h₆, rfl, by decide⟩
  obtain ⟨tr, party, h, hcalls, hsent, hwritten⟩ := hrun
  obtain ⟨tr', peer, h', hcalls', htaken⟩ := hrun'
  have hwell := wellFormed_of_calls hcalls fun _ => toyEcjpake_wellFormed .client
  have hwell' := wellFormed_of_calls hcalls' fun _ => toyEcjpake_wellFormed .server
  obtain ⟨hreceived, -, -⟩ := jpake_slices_inverse 0x0a000109 .client h h' hwell hwell'
    (by rw [htaken, hsent])
  refine ⟨tr, tr', party, peer, h, h', htaken.trans hsent.symm, ?_⟩
  rw [hreceived, hwritten, htaken]
  rfl

end TfPsaCrypto
