import TfPsaCrypto.Library.Blocks
import TfPsaCrypto.Library.History
import TfPsaCrypto.Library.Machine

/-!
# Deterministic random bit generators

The functions of SP 800-90A around a mechanism: requests are counted, and it is reseeded when the
count reaches the interval or prediction resistance is asked for. The source may fail.
-/

namespace Drbg

open Bytes Blocks

/-! ## Mechanisms and instances -/

/-- A mechanism with working states in `ω`. An update is refused where it gives `none`. -/
structure Mechanism (ω : Type) where
  update : ByteString → ω → Option ω
  reseed : ByteString → ByteString → ω → ω
  generate : Nat → ByteString → ω → ByteString × ω

/-- The largest request, the largest additional input of a request and of a reseed, and the largest
seed. -/
structure Limits where
  request : Nat
  input : Nat
  reseedInput : Nat
  seed : Nat

abbrev Source (σ : Type) := σ → (n : Nat) → Option (Block n) × σ

inductive Failure where
  | requestTooBig
  | inputTooBig
  | entropySourceFailed
  deriving DecidableEq, Repr

/-- An instance; `served` counts the requests since the last reseed. -/
structure Instance (ω σ : Type) where
  working : ω
  served : Int
  interval : Int
  predictionResistance : Bool
  entropyLen : Nat
  source : Option σ

inductive Call where
  | generate (n : Nat) (additional : ByteString)
  | reseed (additional : ByteString)
  | update (data : ByteString)
  | setPredictionResistance (on : Bool)
  | setEntropyLen (n : Nat)
  | setReseedInterval (interval : Int)

structure Out where
  ret : Except Failure ByteString
  reseeded : Bool

variable {ω σ : Type} (M : Mechanism ω) (L : Limits) (get : Source σ)

def reseed (I : Instance ω σ) (additional : ByteString) :
    Option (Instance ω σ × Except Failure Unit) :=
  if L.reseedInput < additional.length ∨ L.seed < I.entropyLen + additional.length then
    some (I, .error .inputTooBig)
  else
    match I.source with
    | none => none
    | some s =>
      match get s I.entropyLen with
      | (none, s) => some ({ I with source := some s }, .error .entropySourceFailed)
      | (some entropy, s) =>
        some
          ({ I with
              working := M.reseed entropy.toList additional I.working
              served := 0
              source := some s },
            .ok ())

def serve (I : Instance ω σ) (n : Nat) (additional : ByteString) (reseeded : Bool) :
    Instance ω σ × Out :=
  ({ I with working := (M.generate n additional I.working).2, served := I.served + 1 },
    ⟨.ok (M.generate n additional I.working).1, reseeded⟩)

def generate (I : Instance ω σ) (n : Nat) (additional : ByteString) :
    Option (Instance ω σ × Out) :=
  if L.request < n then some (I, ⟨.error .requestTooBig, false⟩)
  else if L.input < additional.length then some (I, ⟨.error .inputTooBig, false⟩)
  else if I.source.isSome ∧ (I.predictionResistance = true ∨ I.interval ≤ I.served) then
    match reseed M L get I additional with
    | none => none
    | some (I, .error e) => some (I, ⟨.error e, false⟩)
    | some (I, .ok _) => some (serve M I n [] true)
  else some (serve M I n additional false)

def step : Machine.StepFn (Instance ω σ) Call Out :=
  fun I call =>
    match call with
    | .generate n additional => generate M L get I n additional
    | .reseed additional =>
      match reseed M L get I additional with
      | none => none
      | some (I, .error e) => some (I, ⟨.error e, false⟩)
      | some (I, .ok _) => some (I, ⟨.ok [], true⟩)
    | .update data =>
      match M.update data I.working with
      | none => some (I, ⟨.error .inputTooBig, false⟩)
      | some working => some ({ I with working := working }, ⟨.ok [], false⟩)
    | .setPredictionResistance on =>
      some ({ I with predictionResistance := on }, ⟨.ok [], false⟩)
    | .setEntropyLen n => some ({ I with entropyLen := n }, ⟨.ok [], false⟩)
    | .setReseedInterval interval => some ({ I with interval := interval }, ⟨.ok [], false⟩)

/-! ## What a step does -/

variable {M L get} {I I' : Instance ω σ} {additional : ByteString}
variable {call : Call} {o : Out}

/-! ### Reseeding, case by case -/

theorem reseed_tooBig
    (h : L.reseedInput < additional.length ∨ L.seed < I.entropyLen + additional.length) :
    reseed M L get I additional = some (I, .error .inputTooBig) :=
  if_pos h

section Fits

variable (h : ¬ (L.reseedInput < additional.length ∨ L.seed < I.entropyLen + additional.length))
include h

theorem reseed_no_source (hsource : I.source = none) : reseed M L get I additional = none := by
  unfold reseed
  rw [if_neg h, hsource]

variable {s s' : σ} (hsource : I.source = some s)
include hsource

theorem reseed_failed (hget : get s I.entropyLen = (none, s')) :
    reseed M L get I additional =
      some ({ I with source := some s' }, .error .entropySourceFailed) := by
  unfold reseed
  rw [if_neg h, hsource]
  simp only
  rw [hget]

theorem reseed_ok {entropy : Block I.entropyLen} (hget : get s I.entropyLen = (some entropy, s')) :
    reseed M L get I additional =
      some
        ({ I with
            working := M.reseed entropy.toList additional I.working
            served := 0
            source := some s' },
          .ok ()) := by
  unfold reseed
  rw [if_neg h, hsource]
  simp only
  rw [hget]

end Fits

theorem generate_due {n : Nat} (hn : n ≤ L.request) (hinput : additional.length ≤ L.input)
    (hsource : I.source.isSome = true)
    (hdue : I.predictionResistance = true ∨ I.interval ≤ I.served) {I₁ : Instance ω σ}
    (hreseed : reseed M L get I additional = some (I₁, .ok ())) :
    generate M L get I n additional = some (serve M I₁ n [] true) := by
  unfold generate
  rw [if_neg (Nat.not_lt.mpr hn), if_neg (Nat.not_lt.mpr hinput), if_pos ⟨hsource, hdue⟩, hreseed]

theorem reseed_cases {r : Except Failure Unit} (h : reseed M L get I additional = some (I', r)) :
    (∃ e, r = .error e ∧ I'.working = I.working ∧ I'.served = I.served ∧
        I'.source.isSome = I.source.isSome) ∨
      (r = .ok () ∧ I'.served = 0 ∧ I'.source.isSome = true ∧ I.source.isSome = true) := by
  unfold reseed at h
  split at h
  · obtain ⟨rfl, rfl⟩ := Prod.mk.inj (Option.some.inj h)
    exact .inl ⟨_, rfl, rfl, rfl, rfl⟩
  cases hsource : I.source with
  | none =>
    rw [hsource] at h
    cases h
  | some s =>
    rw [hsource] at h
    simp only at h
    split at h
    · obtain ⟨rfl, rfl⟩ := Prod.mk.inj (Option.some.inj h)
      exact .inl ⟨_, rfl, rfl, rfl, rfl⟩
    · obtain ⟨rfl, rfl⟩ := Prod.mk.inj (Option.some.inj h)
      exact .inr ⟨rfl, rfl, rfl, rfl⟩

def Served (e : Call × Out) : Bool :=
  match e.1, e.2.ret with
  | .generate _ _, .ok _ => true
  | _, _ => false

theorem step_cases (h : step M L get I call = some (I', o)) :
    I'.source.isSome = I.source.isSome ∧
    ((∃ e, o = ⟨.error e, false⟩ ∧ I'.working = I.working ∧ I'.served = I.served) ∨
      (o = ⟨.ok [], false⟩ ∧ Served (call, o) = false ∧ I'.served = I.served) ∨
      (o = ⟨.ok [], true⟩ ∧ Served (call, o) = false ∧ I'.served = 0) ∨
      (o.reseeded = true ∧ Served (call, o) = true ∧ I'.served = 1) ∨
      (o.reseeded = false ∧ Served (call, o) = true ∧ I'.served = I.served + 1 ∧
        (I.source.isSome = true → I.predictionResistance = false ∧ I.served < I.interval))) := by
  cases call with
  | generate n additional =>
    simp only [step] at h
    unfold generate at h
    split at h
    · obtain ⟨rfl, rfl⟩ := Prod.mk.inj (Option.some.inj h)
      exact ⟨rfl, .inl ⟨_, rfl, rfl, rfl⟩⟩
    split at h
    · obtain ⟨rfl, rfl⟩ := Prod.mk.inj (Option.some.inj h)
      exact ⟨rfl, .inl ⟨_, rfl, rfl, rfl⟩⟩
    split at h
    · split at h
      · cases h
      · next heq =>
        obtain ⟨rfl, rfl⟩ := Prod.mk.inj (Option.some.inj h)
        rcases reseed_cases heq with ⟨_, _, hw, hs, hsource⟩ | ⟨hok, _⟩
        · exact ⟨hsource, .inl ⟨_, rfl, hw, hs⟩⟩
        · cases hok
      · next heq =>
        obtain ⟨rfl, rfl⟩ := Prod.mk.inj (Option.some.inj h)
        rcases reseed_cases heq with ⟨_, herr, _⟩ | ⟨_, hs, hsource, hsource'⟩
        · cases herr
        · refine ⟨hsource.trans hsource'.symm, .inr (.inr (.inr (.inl ⟨rfl, rfl, ?_⟩)))⟩
          simp only [hs, Int.zero_add]
    · next hnot =>
      obtain ⟨rfl, rfl⟩ := Prod.mk.inj (Option.some.inj h)
      refine ⟨rfl, .inr (.inr (.inr (.inr ⟨rfl, rfl, rfl, ?_⟩)))⟩
      intro hsource
      constructor
      · by_contra hpr
        exact hnot ⟨hsource, .inl (Bool.not_eq_false _ ▸ hpr)⟩
      · by_contra hle
        exact hnot ⟨hsource, .inr (Int.not_lt.mp hle)⟩
  | reseed additional =>
    simp only [step] at h
    split at h
    · cases h
    · next heq =>
      obtain ⟨rfl, rfl⟩ := Prod.mk.inj (Option.some.inj h)
      rcases reseed_cases heq with ⟨_, _, hw, hs, hsource⟩ | ⟨hok, _⟩
      · exact ⟨hsource, .inl ⟨_, rfl, hw, hs⟩⟩
      · cases hok
    · next heq =>
      obtain ⟨rfl, rfl⟩ := Prod.mk.inj (Option.some.inj h)
      rcases reseed_cases heq with ⟨_, herr, _⟩ | ⟨_, hs, hsource, hsource'⟩
      · cases herr
      · exact ⟨hsource.trans hsource'.symm, .inr (.inr (.inl ⟨rfl, rfl, hs⟩))⟩
  | update data =>
    simp only [step] at h
    split at h
    · obtain ⟨rfl, rfl⟩ := Prod.mk.inj (Option.some.inj h)
      exact ⟨rfl, .inl ⟨_, rfl, rfl, rfl⟩⟩
    · obtain ⟨rfl, rfl⟩ := Prod.mk.inj (Option.some.inj h)
      exact ⟨rfl, .inr (.inl ⟨rfl, rfl, rfl⟩)⟩
  | setPredictionResistance on =>
    obtain ⟨rfl, rfl⟩ := Prod.mk.inj (Option.some.inj h)
    exact ⟨rfl, .inr (.inl ⟨rfl, rfl, rfl⟩)⟩
  | setEntropyLen n =>
    obtain ⟨rfl, rfl⟩ := Prod.mk.inj (Option.some.inj h)
    exact ⟨rfl, .inr (.inl ⟨rfl, rfl, rfl⟩)⟩
  | setReseedInterval interval =>
    obtain ⟨rfl, rfl⟩ := Prod.mk.inj (Option.some.inj h)
    exact ⟨rfl, .inr (.inl ⟨rfl, rfl, rfl⟩)⟩

theorem step_error {e : Failure} (h : step M L get I call = some (I', o)) (he : o.ret = .error e) :
    I'.working = I.working ∧ I'.served = I.served := by
  rcases (step_cases h).2 with ⟨_, _, hworking, hserved⟩ | ⟨ho, _⟩ | ⟨ho, _⟩ | ⟨_, hs, _⟩ |
    ⟨_, hs, _⟩
  · exact ⟨hworking, hserved⟩
  · rw [ho] at he
    cases he
  · rw [ho] at he
    cases he
  · cases call <;> simp [Served, he] at hs
  · cases call <;> simp [Served, he] at hs

theorem reseed_entropyLen {r : Except Failure Unit}
    (h : reseed M L get I additional = some (I', r)) : I'.entropyLen = I.entropyLen := by
  unfold reseed at h
  split at h
  · cases h
    rfl
  cases hsource : I.source with
  | none =>
    rw [hsource] at h
    cases h
  | some s =>
    rw [hsource] at h
    simp only at h
    split at h
    · cases h
      rfl
    · cases h
      rfl

theorem step_entropyLen (h : step M L get I call = some (I', o)) :
    call = .setEntropyLen I'.entropyLen ∨ I'.entropyLen = I.entropyLen := by
  cases call with
  | generate n additional =>
    right
    simp only [step] at h
    unfold generate at h
    split at h
    · cases h
      rfl
    split at h
    · cases h
      rfl
    split at h
    · split at h
      · cases h
      · next heq =>
        cases h
        exact reseed_entropyLen heq
      · next heq =>
        have hlen := reseed_entropyLen heq
        cases h
        exact hlen
    · cases h
      rfl
  | reseed additional =>
    right
    simp only [step] at h
    split at h
    · cases h
    · next heq =>
      cases h
      exact reseed_entropyLen heq
    · next heq =>
      cases h
      exact reseed_entropyLen heq
  | update data =>
    right
    simp only [step] at h
    split at h
    · cases h
      rfl
    · cases h
      rfl
  | setPredictionResistance on =>
    right
    cases h
    rfl
  | setEntropyLen n =>
    left
    cases h
    rfl
  | setReseedInterval interval =>
    right
    cases h
    rfl

theorem reseed_total (hsource : I.source.isSome = true) (additional : ByteString) :
    ∃ I' r, reseed M L get I additional = some (I', r) := by
  obtain ⟨s, hs⟩ := Option.isSome_iff_exists.mp hsource
  by_cases h : L.reseedInput < additional.length ∨ L.seed < I.entropyLen + additional.length
  · exact ⟨_, _, reseed_tooBig h⟩
  · rcases hget : get s I.entropyLen with ⟨_ | entropy, s'⟩
    · exact ⟨_, _, reseed_failed h hs hget⟩
    · exact ⟨_, _, reseed_ok h hs hget⟩

theorem step_total (hsource : I.source.isSome = true) (call : Call) :
    ∃ I' o, step M L get I call = some (I', o) := by
  cases call with
  | generate n additional =>
    obtain ⟨I₁, r, hreseed⟩ := @reseed_total _ _ M L get _ hsource additional
    simp only [step]
    unfold generate
    split
    · exact ⟨_, _, rfl⟩
    split
    · exact ⟨_, _, rfl⟩
    split
    · rw [hreseed]
      cases r with
      | error e => exact ⟨_, _, rfl⟩
      | ok _ => exact ⟨_, _, rfl⟩
    · exact ⟨_, _, rfl⟩
  | reseed additional =>
    obtain ⟨I₁, r, hreseed⟩ := @reseed_total _ _ M L get _ hsource additional
    simp only [step]
    rw [hreseed]
    cases r with
    | error e => exact ⟨_, _, rfl⟩
    | ok _ => exact ⟨_, _, rfl⟩
  | update data =>
    simp only [step]
    split
    · exact ⟨_, _, rfl⟩
    · exact ⟨_, _, rfl⟩
  | setPredictionResistance on => exact ⟨_, _, rfl⟩
  | setEntropyLen n => exact ⟨_, _, rfl⟩
  | setReseedInterval interval => exact ⟨_, _, rfl⟩

/-! ## Runs -/

def requests (tr : List (Call × Out)) : Nat :=
  (History.since (fun e => e.2.reseeded) tr).countP Served

theorem requests_snoc (tr : List (Call × Out)) (e : Call × Out) :
    requests (tr ++ [e]) =
      (if e.2.reseeded = true then 0 else requests tr) + (if Served e = true then 1 else 0) := by
  unfold requests
  rw [History.since_append_singleton]
  by_cases h : e.2.reseeded = true
  · rw [if_pos h, if_pos h, List.countP_singleton, Nat.zero_add]
  · rw [if_neg h, if_neg h, List.countP_append, List.countP_singleton]

variable {I₀ : Instance ω σ} {tr : List (Call × Out)}

theorem served_eq_requests (hzero : I₀.served = 0) (hrun : Machine.Run (step M L get) I₀ tr I) :
    I.served = requests tr := by
  induction hrun with
  | nil => exact hzero
  | @snoc tr s s' call o _ hstep ih =>
    rw [requests_snoc]
    rcases (step_cases hstep).2 with ⟨e, rfl, _, hs⟩ | ⟨rfl, hserved, hs⟩ |
      ⟨rfl, hserved, hs⟩ | ⟨hre, hserved, hs⟩ | ⟨hre, hserved, hs, _⟩
    · have hserved : Served (call, ⟨.error e, false⟩) = false := by
        cases call <;> rfl
      simp [hs, ih, hserved]
    · simp [hs, ih, hserved]
    · simp [hs, hserved]
    · simp [hs, hre, hserved]
    · simp [hs, ih, hre, hserved]

theorem source_isSome (hrun : Machine.Run (step M L get) I₀ tr I) :
    I.source.isSome = I₀.source.isSome := by
  induction hrun with
  | nil => rfl
  | snoc _ hstep ih => exact (step_cases hstep).1.trans ih

/-- With a source, a request is served only while the requests since the last reseed, this one
included, are at most as many as the interval, or when it is the first one. -/
theorem requests_le_interval (hzero : I₀.served = 0) (hsource : I₀.source.isSome = true)
    (hrun : Machine.Run (step M L get) I₀ tr I) (hstep : step M L get I call = some (I', o))
    (hserved : Served (call, o) = true) :
    (requests (tr ++ [(call, o)]) : Int) ≤ max 1 I.interval := by
  have hcount := served_eq_requests hzero hrun
  rw [requests_snoc]
  rcases (step_cases hstep).2 with ⟨e, rfl, _, _⟩ | ⟨_, hnot, _⟩ | ⟨_, hnot, _⟩ | ⟨hre, _, _⟩ |
    ⟨hre, _, _, hless⟩
  · have hnot : Served (call, ⟨.error e, false⟩) = false := by
      cases call <;> rfl
    rw [hnot] at hserved
    cases hserved
  · rw [hnot] at hserved
    cases hserved
  · rw [hnot] at hserved
    cases hserved
  · simp only [hre, hserved, if_true]
    omega
  · have hlt := (hless ((source_isSome hrun).trans hsource)).2
    simp only [hre, hserved, if_true]
    simp only [Bool.false_eq_true, if_false]
    omega

end Drbg
