import TfPsaCrypto.Builtin.BignumBytesExact
import TfPsaCrypto.Builtin.BignumSigned
import TfPsaCrypto.Builtin.EcpPrivateKey

/-!
# Random bignums below a bound

`mbedtls_mpi_core_random` and `mbedtls_mpi_random`, on the limbs of the numbers. The source of
random bytes is a parameter.
-/

namespace TfPsaCrypto.Bignum

open Bytes Limbs
open Ecp (Rng)

variable {w : Nat} {σ ε : Type}

/-! ## Functions -/

inductive RandomError (ε : Type) where
  | rng (e : ε)
  | mpi (e : MpiError)
  deriving DecidableEq, Repr

/-- The shift by `v1` bits of `mbedtls_mpi_core_shift_r`, from the highest limb down: the limbs and
`r0`. -/
def shiftRLoop (v1 : Nat) : List (BitVec w) → List (BitVec w) × BitVec w
  | [] => ([], 0)
  | x :: xs =>
    let rest := shiftRLoop v1 xs
    (((x >>> v1) ||| rest.2) :: rest.1, x <<< (w - v1))

def mbedtlsMpiCoreShiftR (X : List (BitVec w)) (count : Nat) : List (BitVec w) :=
  let v0 := count / w
  let v1 := count % w
  if v0 > X.length ∨ (v0 = X.length ∧ v1 > 0) then List.replicate X.length 0
  else
    let X := if v0 > 0 then X.drop v0 ++ List.replicate v0 0 else X
    if v1 > 0 then (shiftRLoop v1 X).1 else X

def mbedtlsMpiCoreUintLeMpi (min : BitVec w) (A : List (BitVec w)) : Bool :=
  let minLeLsl := decide (min ≤ A.getD 0 0)
  let msllMask := (A.drop 1).any (· ≠ 0)
  msllMask || minLeLsl

def mbedtlsMpiCoreFillRandom (isBigEndian : Bool) (rng : Rng σ ε) (XLimbs nBytes : Nat) (s : σ) :
    Except (RandomError ε) (List (BitVec w) × σ) :=
  let limbs := charsToLimbs w nBytes
  let overhead := limbs * ciL w - nBytes
  if XLimbs < limbs then .error (.mpi .badInputData)
  else
    match rng.draw s nBytes with
    | .error e => .error (.rng e)
    | .ok (bytes, s) =>
      let memory := List.replicate overhead 0 ++ bytes
      let X := (List.range limbs).map fun i =>
        loadLimb w isBigEndian (slice memory (i * ciL w) (ciL w))
      .ok (mbedtlsMpiCoreBigendianToHost isBigEndian X ++ List.replicate (XLimbs - limbs) 0, s)

def coreRandomLoop (isBigEndian : Bool) (rng : Rng σ ε) (min : BitVec w) (N : List (BitVec w))
    (nBits nBytes : Nat) : Nat → σ → Except (RandomError ε) (List (BitVec w) × σ)
  | 0, _ => .error (.mpi .notAcceptable)
  | count + 1, s => do
    let (X, s) ← mbedtlsMpiCoreFillRandom isBigEndian rng N.length nBytes s
    let X := mbedtlsMpiCoreShiftR X (8 * nBytes - nBits)
    if count = 0 then .error (.mpi .notAcceptable)
    else
      let geLower := mbedtlsMpiCoreUintLeMpi min X
      let ltUpper := mbedtlsMpiCoreLtCt X N N.length
      if geLower && ltUpper then .ok (X, s)
      else coreRandomLoop isBigEndian rng min N nBits nBytes count s

def mbedtlsMpiCoreRandom (isBigEndian : Bool) (rng : Rng σ ε) (min : BitVec w)
    (N : List (BitVec w)) (s : σ) : Except (RandomError ε) (List (BitVec w) × σ) :=
  let nBits := mbedtlsMpiCoreBitlen N
  let nBytes := (nBits + 7) / 8
  coreRandomLoop isBigEndian rng min N nBits nBytes (if nBytes > 4 then 30 else 250) s

def mbedtlsMpiRandom (isBigEndian : Bool) (rng : Rng σ ε) (X : MbedtlsMpi w) (min : BitVec w)
    (N : MbedtlsMpi w) (s : σ) : Except (RandomError ε) (MbedtlsMpi w × σ) :=
  if min.toInt < 0 then .error (.mpi .badInputData)
  else if mbedtlsMpiCmpInt N min ≤ 0 then .error (.mpi .badInputData)
  else
    match mbedtlsMpiResizeClear X N.n with
    | ⟨some e, _⟩ => .error (.mpi e)
    | ⟨none, X⟩ => do
      let (p, s) ← mbedtlsMpiCoreRandom isBigEndian rng min N.p s
      .ok ({ X with p := p }, s)

/-! ## Limbs -/

theorem shiftRLoop_eq {v1 : Nat} (hv : v1 ≤ w) (X : List (BitVec w)) :
    (shiftRLoop v1 X).1.length = X.length ∧
      value (shiftRLoop v1 X).1 = value X / 2 ^ v1 ∧
      (shiftRLoop v1 X).2.toNat = 2 ^ (w - v1) * (value X % 2 ^ v1) := by
  induction X with
  | nil =>
    unfold shiftRLoop
    simp
  | cons x xs ih =>
    obtain ⟨hlen, hvalue, hcarry⟩ := ih
    have hpow : 2 ^ w = 2 ^ v1 * 2 ^ (w - v1) := by rw [← Nat.pow_add, Nat.add_sub_cancel' hv]
    have hhigh : x.toNat / 2 ^ v1 < 2 ^ (w - v1) := by
      rw [Nat.div_lt_iff_lt_mul (Nat.two_pow_pos _), Nat.mul_comm, ← hpow]
      exact x.isLt
    unfold shiftRLoop
    refine ⟨by simp [hlen], ?_, ?_⟩
    · simp only [value_cons]
      rw [hvalue, BitVec.toNat_or, BitVec.toNat_ushiftRight, hcarry, Nat.shiftRight_eq_div_pow,
        Nat.or_comm, ← Nat.two_pow_add_eq_or_of_lt hhigh, hpow]
      have hsplit := Nat.div_add_mod (value xs) (2 ^ v1)
      have hsum : x.toNat + 2 ^ v1 * 2 ^ (w - v1) * value xs =
          x.toNat + 2 ^ v1 * (2 ^ (w - v1) * value xs) := by ring
      rw [hsum, Nat.add_mul_div_left _ _ (Nat.two_pow_pos v1)]
      calc 2 ^ (w - v1) * (value xs % 2 ^ v1) + x.toNat / 2 ^ v1 +
            2 ^ v1 * 2 ^ (w - v1) * (value xs / 2 ^ v1)
          = x.toNat / 2 ^ v1 + 2 ^ (w - v1) *
              (2 ^ v1 * (value xs / 2 ^ v1) + value xs % 2 ^ v1) := by ring
        _ = x.toNat / 2 ^ v1 + 2 ^ (w - v1) * value xs := by rw [hsplit]
    · simp only [value_cons]
      have hmod : (x.toNat + 2 ^ w * value xs) % 2 ^ v1 = x.toNat % 2 ^ v1 := by
        rw [hpow, Nat.mul_assoc, Nat.add_mul_mod_self_left]
      rw [hmod, BitVec.toNat_shiftLeft, Nat.shiftLeft_eq, hpow, Nat.mul_comm x.toNat,
        Nat.mul_comm (2 ^ v1), Nat.mul_mod_mul_left]

theorem mbedtlsMpiCoreShiftR_eq (hpos : 0 < w) (X : List (BitVec w)) (count : Nat) :
    (mbedtlsMpiCoreShiftR X count).length = X.length ∧
      value (mbedtlsMpiCoreShiftR X count) = value X / 2 ^ count := by
  have hcount := Nat.div_add_mod count w
  have hv1 := Nat.mod_lt count hpos
  unfold mbedtlsMpiCoreShiftR
  simp only
  split
  · next hout =>
    refine ⟨List.length_replicate, ?_⟩
    have hle : w * X.length ≤ count := by
      have := Nat.mul_le_mul_left w (show X.length ≤ count / w by omega)
      omega
    rw [Nat.div_eq_of_lt (Nat.lt_of_lt_of_le (value_lt X) (Nat.pow_le_pow_right (by decide) hle))]
    exact value_replicate_zero _
  · next hin =>
    have hmoved : ∃ Y, (if count / w > 0 then X.drop (count / w) ++
        List.replicate (count / w) 0 else X) = Y ∧ Y.length = X.length ∧
          value Y = value X / 2 ^ (w * (count / w)) := by
      refine ⟨_, rfl, ?_, ?_⟩
      · split
        · rw [List.length_append, List.length_drop, List.length_replicate]
          omega
        · rfl
      · split
        · rw [← value_drop]
          exact value_append_replicate_zero _ _
        · next hzero =>
          rw [Nat.eq_zero_of_not_pos hzero, Nat.mul_zero, Nat.pow_zero, Nat.div_one]
    obtain ⟨Y, hY, hlen, hvalue⟩ := hmoved
    rw [hY]
    have hgoal : value X / 2 ^ count = value Y / 2 ^ (count % w) := by
      conv_lhs => rw [← hcount, Nat.pow_add, ← Nat.div_div_eq_div_mul]
      rw [hvalue]
    rw [hgoal]
    split
    · obtain ⟨hl, hv, _⟩ := shiftRLoop_eq (Nat.le_of_lt hv1) Y
      exact ⟨hl.trans hlen, hv⟩
    · next hzero =>
      rw [Nat.eq_zero_of_not_pos hzero, Nat.pow_zero, Nat.div_one]
      exact ⟨hlen, rfl⟩

theorem mbedtlsMpiCoreUintLeMpi_eq (min : BitVec w) {A : List (BitVec w)} (hA : A ≠ []) :
    mbedtlsMpiCoreUintLeMpi min A = true ↔ min.toNat ≤ value A := by
  cases A with
  | nil => exact absurd rfl hA
  | cons a A =>
    unfold mbedtlsMpiCoreUintLeMpi
    simp only [List.drop_succ_cons, List.drop_zero, List.getD_cons_zero, value_cons,
      Bool.or_eq_true, List.any_eq_true, decide_eq_true_eq]
    by_cases hzero : value A = 0
    · have hall := (value_eq_zero_iff A).mp hzero
      rw [hzero, Nat.mul_zero, Nat.add_zero]
      constructor
      · rintro (⟨y, hy, hne⟩ | hle)
        · exact absurd (hall y hy) hne
        · exact hle
      · exact Or.inr
    · have hmin := min.isLt
      have hle := Nat.le_mul_of_pos_right (2 ^ w) (Nat.pos_of_ne_zero hzero)
      refine iff_of_true (Or.inl ?_) (by omega)
      by_contra hnone
      apply hzero
      rw [value_eq_zero_iff]
      intro y hy
      by_contra hne
      exact hnone ⟨y, hy, hne⟩

/-! ## Candidates -/

def randomBytes (N : Nat) : Nat := (N.size + 7) / 8

def randomCount (N : Nat) : Nat := if randomBytes N > 4 then 30 else 250

/-- The leftmost `bitlen(N)` bits of the octet string. -/
def candidate (N : Nat) (bytes : ByteString) : Nat := ofBE bytes / 2 ^ (8 * bytes.length - N.size)

def Acceptable (min N : Nat) (bytes : ByteString) : Prop :=
  min ≤ candidate N bytes ∧ candidate N bytes < N

instance (min N : Nat) (bytes : ByteString) : Decidable (Acceptable min N bytes) :=
  inferInstanceAs (Decidable (_ ∧ _))

/-- From the state `s`, `k` draws whose candidates are all out of range lead to the last state. -/
inductive Rejected (rng : Rng σ ε) (min N : Nat) : σ → Nat → σ → Prop where
  | nil (s : σ) : Rejected rng min N s 0 s
  | cons {s s' last : σ} {bytes : ByteString} {k : Nat}
      (hdraw : rng.draw s (randomBytes N) = .ok (bytes, s')) (hout : ¬ Acceptable min N bytes)
      (hrest : Rejected rng min N s' k last) : Rejected rng min N s (k + 1) last

/-- Sampling `[min, N - 1]` with `count` draws at most gives the first acceptable candidate, the
failure of the generator, or `MBEDTLS_ERR_MPI_NOT_ACCEPTABLE`. -/
structure SamplesFirst (rng : Rng σ ε) (min N count limbs : Nat) (s : σ)
    (result : Except (RandomError ε) (List (BitVec w) × σ)) : Prop where
  success : ∀ X last, result = .ok (X, last) ↔
    ∃ k s', Rejected rng min N s k s' ∧ k + 1 < count ∧ ∃ bytes,
      rng.draw s' (randomBytes N) = .ok (bytes, last) ∧ Acceptable min N bytes ∧
        X.length = limbs ∧ value X = candidate N bytes
  rngFailed : ∀ e, result = .error (.rng e) ↔
    ∃ k s', Rejected rng min N s k s' ∧ k < count ∧ rng.draw s' (randomBytes N) = .error e
  mpiFailed : ∀ e, result = .error (.mpi e) ↔
    ∃ k s', Rejected rng min N s k s' ∧ k + 1 = count ∧ ∃ bytes last,
      rng.draw s' (randomBytes N) = .ok (bytes, last) ∧ e = .notAcceptable

theorem exists_rejected_iff (rng : Rng σ ε) (min N : Nat) (s : σ) (Q : Nat → σ → Prop) :
    (∃ k s', Rejected rng min N s k s' ∧ Q k s') ↔
      Q 0 s ∨ ∃ bytes s₁, rng.draw s (randomBytes N) = .ok (bytes, s₁) ∧
        ¬ Acceptable min N bytes ∧ ∃ k s', Rejected rng min N s₁ k s' ∧ Q (k + 1) s' := by
  constructor
  · rintro ⟨k, s', hrejected, hQ⟩
    cases hrejected with
    | nil => exact .inl hQ
    | cons hdraw hout hrest => exact .inr ⟨_, _, hdraw, hout, _, _, hrest, hQ⟩
  · rintro (hQ | ⟨bytes, s₁, hdraw, hout, k, s', hrest, hQ⟩)
    · exact ⟨0, s, .nil s, hQ⟩
    · exact ⟨k + 1, s', .cons hdraw hout hrest, hQ⟩

section

variable {rng : Rng σ ε} {min N count limbs : Nat} {s s₁ : σ} {bytes : ByteString}

theorem samplesFirst_of_error {e : ε} (hdraw : rng.draw s (randomBytes N) = .error e) :
    SamplesFirst rng min N (count + 1) limbs s
      (.error (.rng e) : Except (RandomError ε) (List (BitVec w) × σ)) := by
  refine ⟨fun X last => ?_, fun e' => ?_, fun e' => ?_⟩ <;> rw [exists_rejected_iff] <;>
    simp [hdraw]

theorem samplesFirst_of_last (hdraw : rng.draw s (randomBytes N) = .ok (bytes, s₁)) :
    SamplesFirst rng min N 1 limbs s
      (.error (.mpi .notAcceptable) : Except (RandomError ε) (List (BitVec w) × σ)) := by
  refine ⟨fun X last => ?_, fun e' => ?_, fun e' => ?_⟩ <;> rw [exists_rejected_iff] <;>
    simp [hdraw, eq_comm]

theorem samplesFirst_of_acceptable (hdraw : rng.draw s (randomBytes N) = .ok (bytes, s₁))
    (hin : Acceptable min N bytes) {X : List (BitVec w)} (hlen : X.length = limbs)
    (hvalue : value X = candidate N bytes) :
    SamplesFirst rng min N (count + 2) limbs s (.ok (X, s₁)) := by
  refine ⟨fun Y last => ?_, fun e' => ?_, fun e' => ?_⟩ <;> rw [exists_rejected_iff]
  · constructor
    · rintro ⟨⟩
      exact .inl ⟨by omega, bytes, hdraw, hin, hlen, hvalue⟩
    rintro (⟨_, bytes', hdraw', _, hlen', hvalue'⟩ | ⟨bytes', _, hdraw', hout, _⟩)
    · rw [hdraw] at hdraw'
      cases hdraw'
      rw [value_inj (hlen.trans hlen'.symm) (hvalue.trans hvalue'.symm)]
    · rw [hdraw] at hdraw'
      cases hdraw'
      exact absurd hin hout
  · simp [hdraw, hin]
  · simp [hdraw, hin]

theorem SamplesFirst.cons (hdraw : rng.draw s (randomBytes N) = .ok (bytes, s₁))
    (hout : ¬ Acceptable min N bytes)
    {result : Except (RandomError ε) (List (BitVec w) × σ)}
    (h : SamplesFirst rng min N (count + 1) limbs s₁ result) :
    SamplesFirst rng min N (count + 2) limbs s result := by
  refine ⟨fun X last => ?_, fun e => ?_, fun e => ?_⟩ <;> rw [exists_rejected_iff]
  · rw [h.success]
    simp [hdraw, hout]
  · rw [h.rngFailed]
    simp [hdraw, hout]
  · rw [h.mpiFailed]
    simp [hdraw, hout]

end

/-! ## Sampling -/

theorem mbedtlsMpiCoreFillRandom_ok (hw : 0 < ciL w) (hbits : w = 8 * ciL w) (isBigEndian : Bool)
    {rng : Rng σ ε} {XLimbs nBytes : Nat} {s s₁ : σ} {bytes : ByteString}
    (hroom : charsToLimbs w nBytes ≤ XLimbs) (hdraw : rng.draw s nBytes = .ok (bytes, s₁)) :
    ∃ X : List (BitVec w), mbedtlsMpiCoreFillRandom isBigEndian rng XLimbs nBytes s = .ok (X, s₁) ∧
      X.length = XLimbs ∧ value X = ofBE bytes := by
  have hlen := rng.length_draw hdraw
  obtain ⟨Y, hY, hYlen, hYvalue⟩ := mbedtlsMpiCoreReadBe_of_le hw hbits isBigEndian
    (Nat.le_refl (charsToLimbs w bytes.length))
  have hread : mbedtlsMpiCoreFillRandom isBigEndian rng XLimbs nBytes s =
      .ok (Y ++ List.replicate (XLimbs - charsToLimbs w nBytes) 0, s₁) := by
    unfold mbedtlsMpiCoreFillRandom
    rw [if_neg (by omega), hdraw]
    unfold mbedtlsMpiCoreReadBe at hY
    rw [if_neg (by omega)] at hY
    simp only [hlen] at hY ⊢
    split at hY
    · next hzero =>
      cases hY
      rw [hzero]
      rfl
    · cases hY
      rfl
  refine ⟨_, hread, ?_, ?_⟩
  · rw [List.length_append, hYlen, List.length_replicate, hlen]
    omega
  · exact (value_append_replicate_zero _ _).trans hYvalue

theorem mbedtlsMpiCoreFillRandom_error (isBigEndian : Bool) {rng : Rng σ ε} {XLimbs nBytes : Nat}
    {s : σ} {e : ε} (hroom : charsToLimbs w nBytes ≤ XLimbs)
    (hdraw : rng.draw s nBytes = .error e) :
    mbedtlsMpiCoreFillRandom (w := w) isBigEndian rng XLimbs nBytes s = .error (.rng e) := by
  unfold mbedtlsMpiCoreFillRandom
  rw [if_neg (by omega), hdraw]

theorem charsToLimbs_randomBytes (hw : 0 < ciL w) (hbits : w = 8 * ciL w) (N : List (BitVec w)) :
    charsToLimbs w (randomBytes (value N)) ≤ N.length := by
  have hsize : (value N).size ≤ w * N.length := Nat.size_le.mpr (value_lt N)
  have hmul : w * N.length = 8 * (N.length * ciL w) := by
    calc w * N.length = 8 * ciL w * N.length := congrArg (fun bits => bits * N.length) hbits
      _ = 8 * (N.length * ciL w) := by ring
  rw [charsToLimbs_le_iff hw]
  unfold randomBytes
  omega

theorem coreRandomLoop_samplesFirst (hw : 0 < ciL w) (hbits : w = 8 * ciL w) (isBigEndian : Bool)
    (rng : Rng σ ε) (min : BitVec w) {N : List (BitVec w)} (hN : N ≠ []) (count : Nat) (s : σ) :
    SamplesFirst rng min.toNat (value N) (count + 1) N.length s
      (coreRandomLoop isBigEndian rng min N (value N).size (randomBytes (value N)) (count + 1)
        s) := by
  have hroom := charsToLimbs_randomBytes hw hbits N
  induction count generalizing s with
  | zero =>
    unfold coreRandomLoop
    cases hdraw : rng.draw s (randomBytes (value N)) with
    | error e =>
      rw [mbedtlsMpiCoreFillRandom_error isBigEndian hroom hdraw]
      exact samplesFirst_of_error hdraw
    | ok drawn =>
      obtain ⟨bytes, s₁⟩ := drawn
      obtain ⟨X, hfill, _⟩ := mbedtlsMpiCoreFillRandom_ok hw hbits isBigEndian hroom hdraw
      rw [hfill]
      exact samplesFirst_of_last hdraw
  | succ count ih =>
    unfold coreRandomLoop
    cases hdraw : rng.draw s (randomBytes (value N)) with
    | error e =>
      rw [mbedtlsMpiCoreFillRandom_error isBigEndian hroom hdraw]
      exact samplesFirst_of_error hdraw
    | ok drawn =>
      obtain ⟨bytes, s₁⟩ := drawn
      obtain ⟨X, hfill, hlen, hvalue⟩ :=
        mbedtlsMpiCoreFillRandom_ok hw hbits isBigEndian hroom hdraw
      have hpos : 0 < w := by omega
      obtain ⟨hshiftLen, hshift⟩ := mbedtlsMpiCoreShiftR_eq hpos X
        (8 * randomBytes (value N) - (value N).size)
      rw [hfill]
      simp only [bind, Except.bind, Nat.succ_ne_zero, if_false]
      generalize hY : mbedtlsMpiCoreShiftR X
        (8 * randomBytes (value N) - (value N).size) = Y at hshiftLen hshift ⊢
      have hYlen : Y.length = N.length := hshiftLen.trans hlen
      have hcandidate : value Y = candidate (value N) bytes := by
        unfold candidate
        rw [hshift, hvalue, rng.length_draw hdraw]
      have hYne : Y ≠ [] := by
        intro hnil
        rw [hnil] at hYlen
        exact hN (List.eq_nil_of_length_eq_zero hYlen.symm)
      have hcheck : (mbedtlsMpiCoreUintLeMpi min Y && mbedtlsMpiCoreLtCt Y N N.length) = true ↔
          Acceptable min.toNat (value N) bytes := by
        unfold Acceptable
        rw [Bool.and_eq_true, mbedtlsMpiCoreUintLeMpi_eq min hYne, ← hYlen,
          mbedtlsMpiCoreLtCt_eq hYlen, decide_eq_true_eq, hcandidate]
      split
      · next hin =>
        exact samplesFirst_of_acceptable hdraw (hcheck.mp hin) hYlen hcandidate
      · next hout => exact .cons hdraw (fun hin => hout (hcheck.mpr hin)) (ih s₁)

theorem mbedtlsMpiCoreRandom_samplesFirst (hw : 0 < ciL w) (hbits : w = 8 * ciL w)
    (isBigEndian : Bool) (rng : Rng σ ε) {min : BitVec w} {N : List (BitVec w)}
    (hmin : min.toNat < value N) (s : σ) :
    SamplesFirst rng min.toNat (value N) (randomCount (value N)) N.length s
      (mbedtlsMpiCoreRandom isBigEndian rng min N s) := by
  have hN : N ≠ [] := by
    rintro rfl
    exact absurd hmin (Nat.not_lt_zero _)
  have hcount : randomCount (value N) = (randomCount (value N) - 1) + 1 := by
    unfold randomCount
    split <;> rfl
  unfold mbedtlsMpiCoreRandom
  simp only [mbedtlsMpiCoreBitlen_eq]
  change SamplesFirst _ _ _ _ _ _ (coreRandomLoop _ _ _ _ _ _ (randomCount (value N)) _)
  rw [hcount]
  exact coreRandomLoop_samplesFirst hw hbits isBigEndian rng min hN _ s

theorem mbedtlsMpiCmpMpi_of_positive {X Y : MbedtlsMpi w} (hX : X.s = 1) (hY : Y.s = 1) :
    mbedtlsMpiCmpMpi X Y = mbedtlsMpiCmpAbs X Y := by
  unfold mbedtlsMpiCmpMpi mbedtlsMpiCmpAbs
  simp only [hX, hY]
  split
  · next hzero =>
    obtain ⟨hi, hj⟩ := hzero
    rw [hi, hj]
    rfl
  · simp

theorem mbedtlsMpiRandom_eq (hpos : 0 < w) (isBigEndian : Bool) (rng : Rng σ ε) (X : MbedtlsMpi w)
    {min : BitVec w} {N : MbedtlsMpi w} (hsigned : N.Signed) (hlimbs : N.n ≤ mbedtlsMpiMaxLimbs)
    (hmin : 0 ≤ min.toInt) (hN : min.toInt < N.toInt) (s : σ) :
    mbedtlsMpiRandom isBigEndian rng X min N s =
      (mbedtlsMpiCoreRandom isBigEndian rng min N.p s).map
        fun r => ({ s := 1, p := r.1 }, r.2) := by
  have hNs : N.s = 1 := by
    rw [hsigned, if_neg (by omega)]
  have hmins : (sintMpi min).s = 1 := by
    unfold sintMpi
    rw [toSign_eq hpos, if_neg (by omega)]
  have hminInt := toInt_sintMpi hpos min
  have hle : (sintMpi min).abs < N.abs := by
    unfold MbedtlsMpi.toInt at hminInt hN
    rw [hmins] at hminInt
    rw [hNs] at hN
    omega
  have hcmp : mbedtlsMpiCmpInt N min = 1 := by
    unfold mbedtlsMpiCmpInt
    rw [mbedtlsMpiCmpMpi_of_positive hNs hmins, mbedtlsMpiCmpAbs_eq, if_pos hle]
  unfold mbedtlsMpiRandom
  rw [if_neg (by omega), hcmp, if_neg (by decide), mbedtlsMpiResizeClear_of_le hlimbs]
  cases mbedtlsMpiCoreRandom isBigEndian rng min N.p s <;> rfl

theorem mpi_random_first_candidate (hw : 0 < ciL w) (hbits : w = 8 * ciL w) (isBigEndian : Bool)
    (rng : Rng σ ε) {min : BitVec w} {N : MbedtlsMpi w} (hmin : min.toNat < N.abs) (s : σ) :
    SamplesFirst rng min.toNat N.abs (randomCount N.abs) N.n s
        (mbedtlsMpiCoreRandom isBigEndian rng min N.p s) ∧
      ∀ X : MbedtlsMpi w, N.Signed → N.n ≤ mbedtlsMpiMaxLimbs → 0 ≤ min.toInt →
        min.toInt < N.toInt →
          mbedtlsMpiRandom isBigEndian rng X min N s =
            (mbedtlsMpiCoreRandom isBigEndian rng min N.p s).map
              fun r => ({ s := 1, p := r.1 }, r.2) := by
  refine ⟨mbedtlsMpiCoreRandom_samplesFirst hw hbits isBigEndian rng hmin s, ?_⟩
  intro X hsigned hlimbs hnonneg hN
  have hpos : 0 < w := by omega
  exact mbedtlsMpiRandom_eq hpos isBigEndian rng X hsigned hlimbs hnonneg hN s

def streamRng : Rng ByteString Unit where
  draw s n := if n ≤ s.length then .ok (s.take n, s.drop n) else .error ()
  length_draw := by
    intro s s' n bytes h
    split at h
    · next hle =>
      cases h
      rw [List.length_take, Nat.min_eq_left hle]
    · cases h

/-- The second of three candidates of 3 bits. -/
theorem mpi_random_first_candidate_second :
    SamplesFirst streamRng 2 5 (randomCount 5) 1 [0xFF, 0x60, 0x40]
        (mbedtlsMpiCoreRandom false streamRng 2 [5#64] [0xFF, 0x60, 0x40]) ∧
      mbedtlsMpiCoreRandom false streamRng 2 [5#64] [0xFF, 0x60, 0x40] = .ok ([3#64], [0x40]) ∧
      mbedtlsMpiRandom false streamRng { s := 1, p := [] } 2 { s := 1, p := [5#64] }
          [0xFF, 0x60, 0x40] = .ok ({ s := 1, p := [3#64] }, [0x40]) := by
  have h := @mpi_random_first_candidate 64 ByteString Unit (by decide) (by decide) false streamRng 2
    { s := 1, p := [5] } (by decide) [0xFF, 0x60, 0x40]
  exact ⟨h.1, rfl, h.2 _ rfl (by decide) (by decide) (by decide)⟩

/-- The three low bits of the octet give 0, the three leftmost 4. -/
theorem mpi_random_not_low_bits :
    mbedtlsMpiCoreBitlen [5#64] = 3 ∧
      mbedtlsMpiCoreRandom false streamRng 0 [5#64] [0x80] = .ok ([4#64], []) ∧
      streamRng.draw [0x80] 1 = .ok ([0x80], []) ∧ ofBE [0x80] % 2 ^ 3 = 0 :=
  ⟨rfl, rfl, rfl, rfl⟩

end TfPsaCrypto.Bignum
