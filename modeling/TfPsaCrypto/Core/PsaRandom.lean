import TfPsaCrypto.Core.Types
import TfPsaCrypto.Library.Bytes
import TfPsaCrypto.Library.History

/-!
# The random generator across forks

The context of the PSA random generator holds a DRBG and the process that seeded it last. An
identifier is used again once its process has died.
-/

namespace TfPsaCrypto.Random

open Bytes History

/-! ## The generator -/

/-- What the DRBG reports: its own codes, or one of a lower module with the status that it is
mapped to. -/
inductive DrbgError where
  | entropySourceFailed
  | requestTooBig
  | inputTooBig
  | fileIoError
  | lower (status : PsaError)

def mbedtlsToPsaError : DrbgError → PsaStatus
  | .entropySourceFailed => .errorInsufficientEntropy
  | .requestTooBig => .errorNotSupported
  | .inputTooBig => .errorNotSupported
  | .fileIoError => .errorInsufficientEntropy
  | .lower e => e.status

/-- The DRBG and its entropy source during one call; `δ` is the state of both. -/
structure Drbg (δ : Type) where
  seed : δ → ByteString → Option DrbgError × δ
  reseed : δ → ByteString → Option DrbgError × δ
  random : δ → Nat → Option DrbgError × ByteString × δ

structure RandomContext (δ : Type) where
  drbg : δ
  pid : Int

variable {δ : Type}

def psaRandomMaxRequest : Nat := 1024

/-- In the process `pid`. -/
def psaRandomInternalSeed (d : Drbg δ) (pid : Int) (rng : RandomContext δ) :
    PsaStatus × RandomContext δ :=
  let (ret, drbg) := d.seed rng.drbg [0x50, 0x53, 0x41]
  ((ret.map mbedtlsToPsaError).getD .success, { drbg := drbg, pid := pid })

/-- `perso` has the identifier and the time, `none` without a time. -/
def psaRandomInternalReseedChild (d : Drbg δ) (perso : Option ByteString)
    (rng : RandomContext δ) : PsaStatus × RandomContext δ :=
  match perso with
  | none => (.errorInsufficientEntropy, rng)
  | some perso =>
    let (ret, drbg) := d.reseed rng.drbg perso
    ((ret.map mbedtlsToPsaError).getD .success, { rng with drbg := drbg })

def generateLoop (d : Drbg δ) (outputSize : Nat) (rng : RandomContext δ) :
    PsaStatus × ByteString × RandomContext δ :=
  if outputSize = 0 then (.success, [], rng)
  else
    let requestSize := min outputSize psaRandomMaxRequest
    match d.random rng.drbg requestSize with
    | (some e, output, drbg) => (mbedtlsToPsaError e, output, { rng with drbg := drbg })
    | (none, output, drbg) =>
      let (status, rest, rng) := generateLoop d (outputSize - requestSize)
        { rng with drbg := drbg }
      (status, output ++ rest, rng)
termination_by outputSize
decreasing_by
  simp only [psaRandomMaxRequest]
  omega

structure GenerateResult (δ : Type) where
  status : PsaStatus
  output : ByteString
  rng : RandomContext δ
  reseeded : Bool

/-- In the process `pid`. -/
def psaRandomInternalGenerate (d : Drbg δ) (perso : Option ByteString) (pid : Int)
    (rng : RandomContext δ) (outputSize : Nat) : GenerateResult δ :=
  if pid ≠ rng.pid then
    let reseed := psaRandomInternalReseedChild d perso rng
    if reseed.1 ≠ .success then
      { status := reseed.1, output := [], rng := reseed.2, reseeded := false }
    else
      let r := generateLoop d outputSize { reseed.2 with pid := pid }
      { status := r.1, output := r.2.1, rng := r.2.2, reseeded := true }
  else
    let r := generateLoop d outputSize rng
    { status := r.1, output := r.2.1, rng := r.2.2, reseeded := false }

theorem generateLoop_pid (d : Drbg δ) (outputSize : Nat) (rng : RandomContext δ) :
    (generateLoop d outputSize rng).2.2.pid = rng.pid := by
  induction outputSize, rng using generateLoop.induct d with
  | case1 rng => rw [generateLoop, if_pos rfl]
  | case2 n rng hn size e output drbg hrandom =>
    rw [generateLoop, if_neg hn]
    dsimp only
    rw [hrandom]
  | case3 n rng hn size output drbg hrandom _ _ _ _ ih =>
    rw [generateLoop, if_neg hn]
    dsimp only
    rw [hrandom]
    exact ih

theorem reseedChild_pid (d : Drbg δ) (perso : Option ByteString) (rng : RandomContext δ) :
    (psaRandomInternalReseedChild d perso rng).2.pid = rng.pid := by
  cases perso <;> rfl

/-- After a call the context holds the identifier of the process if it reseeded, else the old one.
A call that did not reseed succeeds only where they are the same. -/
theorem generate_spec (d : Drbg δ) (perso : Option ByteString) (pid : Int) (rng : RandomContext δ)
    (outputSize : Nat) :
    let r := psaRandomInternalGenerate d perso pid rng outputSize
    (r.reseeded = true ∧ r.rng.pid = pid) ∨
      (r.reseeded = false ∧ r.rng.pid = rng.pid ∧ (r.status = .success → rng.pid = pid)) := by
  intro r
  by_cases hpid : pid = rng.pid
  · have hr : r = psaRandomInternalGenerate d perso pid rng outputSize := rfl
    rw [psaRandomInternalGenerate, if_neg (not_not_intro hpid)] at hr
    rw [hr]
    exact .inr ⟨rfl, generateLoop_pid d _ _, fun _ => hpid.symm⟩
  · have hr : r = psaRandomInternalGenerate d perso pid rng outputSize := rfl
    rw [psaRandomInternalGenerate, if_pos hpid] at hr
    by_cases hreseed : (psaRandomInternalReseedChild d perso rng).1 = .success
    · rw [if_neg (not_not_intro hreseed)] at hr
      rw [hr]
      exact .inl ⟨rfl, generateLoop_pid d _ _⟩
    · rw [if_pos hreseed] at hr
      rw [hr]
      exact .inr ⟨rfl, reseedChild_pid d perso rng, fun h => absurd h hreseed⟩

/-! ## Processes -/

structure Process (δ : Type) where
  serial : Nat
  rng : RandomContext δ

inductive RandomEvent where
  | forked (parent child : Nat)
  | reseeded (serial : Nat)
  | output (serial : Nat) (bytes : ByteString)

structure World (δ : Type) where
  process : Int → Option (Process δ)
  serials : Nat
  log : List RandomEvent

inductive Action (δ : Type) where
  | fork (parent child : Int)
  | exit (pid : Int)
  | generate (pid : Int) (d : Drbg δ) (perso : Option ByteString) (outputSize : Nat)

def generateEvents (serial : Nat) (r : GenerateResult δ) : List RandomEvent :=
  (if r.reseeded = true then [.reseeded serial] else []) ++
    if r.status = .success ∧ r.output ≠ [] then [.output serial r.output] else []

/-- `none` where a process does not live, or a new identifier is one of a live process. -/
def step (w : World δ) : Action δ → Option (World δ)
  | .fork parent child =>
    match w.process parent, w.process child with
    | some p, none =>
      some { process := Function.update w.process child (some { p with serial := w.serials })
             serials := w.serials + 1
             log := w.log ++ [.forked p.serial w.serials] }
    | _, _ => none
  | .exit pid =>
    match w.process pid with
    | some _ => some { w with process := Function.update w.process pid none }
    | none => none
  | .generate pid d perso outputSize =>
    match w.process pid with
    | some p =>
      let r := psaRandomInternalGenerate d perso pid p.rng outputSize
      some { w with
        process := Function.update w.process pid (some { p with rng := r.rng })
        log := w.log ++ generateEvents p.serial r }
    | none => none

def seeded (d : Drbg δ) (pid : Int) (rng : RandomContext δ) : World δ where
  process := Function.update (fun _ => none) pid
    (some { serial := 0, rng := (psaRandomInternalSeed d pid rng).2 })
  serials := 1
  log := []

def OutputAfterReseed (log : List RandomEvent) : Prop :=
  Each (fun pre e => ∀ serial bytes, e = .output serial bytes →
    (∃ parent, .forked parent serial ∈ pre) → .reseeded serial ∈ pre) log

def Action.FreshPid (w : World δ) : Action δ → Prop
  | .fork parent child => ∀ p, w.process parent = some p → p.rng.pid ≠ child
  | _ => True

def FreshStep (w w' : World δ) : Prop := ∃ a : Action δ, a.FreshPid w ∧ step w a = some w'

structure WorldInv (w : World δ) : Prop where
  serial_lt : ∀ pid p, w.process pid = some p → p.serial < w.serials
  forked_lt : ∀ parent child, .forked parent child ∈ w.log → child < w.serials
  own : ∀ pid p, w.process pid = some p → p.rng.pid = pid →
    (∃ parent, .forked parent p.serial ∈ w.log) → .reseeded p.serial ∈ w.log
  output : OutputAfterReseed w.log

theorem OutputAfterReseed.snoc {log : List RandomEvent} {e : RandomEvent}
    (h : OutputAfterReseed log)
    (he : ∀ serial bytes, e = .output serial bytes →
      (∃ parent, .forked parent serial ∈ log) → .reseeded serial ∈ log) :
    OutputAfterReseed (log ++ [e]) :=
  each_append_singleton.mpr ⟨h, he⟩

theorem WorldInv.fork {w : World δ} {child : Int} {p : Process δ} (h : WorldInv w)
    (hfresh : p.rng.pid ≠ child) :
    WorldInv { process := Function.update w.process child (some { p with serial := w.serials })
               serials := w.serials + 1
               log := w.log ++ [.forked p.serial w.serials] } := by
  refine ⟨fun q r hr => ?_, fun a b hab => ?_, fun q r hr hown hforked => ?_, h.output.snoc nofun⟩
  · dsimp only at hr
    by_cases hq : q = child
    · subst hq
      rw [Function.update_self] at hr
      cases hr
      exact Nat.lt_succ_self _
    · rw [Function.update_of_ne hq] at hr
      exact Nat.lt_succ_of_lt (h.serial_lt q r hr)
  · rcases List.mem_append.mp hab with hab | hab
    · exact Nat.lt_succ_of_lt (h.forked_lt a b hab)
    · cases List.mem_singleton.mp hab
      exact Nat.lt_succ_self _
  · dsimp only at hr
    by_cases hq : q = child
    · subst hq
      rw [Function.update_self] at hr
      cases hr
      -- the copied context holds the identifier of the parent
      exact absurd hown hfresh
    · rw [Function.update_of_ne hq] at hr
      obtain ⟨a, ha⟩ := hforked
      rcases List.mem_append.mp ha with ha | ha
      · exact List.mem_append_left _ (h.own q r hr hown ⟨a, ha⟩)
      · -- The new serial number is not one of a process that lived before.
        have hserial : r.serial = w.serials := by
          injection List.mem_singleton.mp ha
        exact absurd (h.serial_lt q r hr) (Nat.not_lt_of_le hserial.ge)

theorem WorldInv.exit {w : World δ} (h : WorldInv w) (pid : Int) :
    WorldInv { w with process := Function.update w.process pid none } := by
  have hold : ∀ q r, Function.update w.process pid none q = some r → w.process q = some r := by
    intro q r hr
    by_cases hq : q = pid
    · subst hq
      rw [Function.update_self] at hr
      cases hr
    · rwa [Function.update_of_ne hq] at hr
  exact ⟨fun q r hr => h.serial_lt q r (hold q r hr), h.forked_lt,
    fun q r hr => h.own q r (hold q r hr), h.output⟩

theorem mem_generateEvents {serial child : Nat} {r : GenerateResult δ} {parent : Nat} :
    .forked parent child ∉ generateEvents serial r := by
  unfold generateEvents
  split <;> split <;> simp

theorem WorldInv.generate {w : World δ} {pid : Int} {p : Process δ} (h : WorldInv w)
    (hp : w.process pid = some p) (d : Drbg δ) (perso : Option ByteString) (outputSize : Nat) :
    WorldInv { w with
      process := Function.update w.process pid
        (some { p with rng := (psaRandomInternalGenerate d perso pid p.rng outputSize).rng })
      log := w.log ++ generateEvents p.serial
        (psaRandomInternalGenerate d perso pid p.rng outputSize) } := by
  have hspec := generate_spec d perso pid p.rng outputSize
  generalize psaRandomInternalGenerate d perso pid p.rng outputSize = r at hspec
  have hold : ∀ parent child, .forked parent child ∈ w.log ++ generateEvents p.serial r →
      .forked parent child ∈ w.log := fun parent child hmem =>
    (List.mem_append.mp hmem).resolve_right mem_generateEvents
  refine ⟨fun q s hs => ?_, fun a b hab => h.forked_lt a b (hold a b hab),
    fun q s hs hown hforked => ?_, ?_⟩
  · dsimp only at hs
    by_cases hq : q = pid
    · subst hq
      rw [Function.update_self] at hs
      cases hs
      exact h.serial_lt q p hp
    · rw [Function.update_of_ne hq] at hs
      exact h.serial_lt q s hs
  · obtain ⟨a, hmem⟩ := hforked
    have ha : .forked a s.serial ∈ w.log := hold _ _ hmem
    dsimp only at hs
    by_cases hq : q = pid
    · subst hq
      rw [Function.update_self] at hs
      cases hs
      rcases hspec with ⟨hreseeded, -⟩ | ⟨-, hpid, -⟩
      · refine List.mem_append_right _ ?_
        rw [generateEvents, if_pos hreseeded]
        exact List.mem_append_left _ (List.mem_singleton_self _)
      · exact List.mem_append_left _ (h.own q p hp (hpid.symm.trans hown) ⟨a, ha⟩)
    · rw [Function.update_of_ne hq] at hs
      exact List.mem_append_left _ (h.own q s hs hown ⟨a, ha⟩)
  · unfold generateEvents
    rcases hspec with ⟨hreseeded, -⟩ | ⟨hreseeded, -, hsame⟩
    · rw [if_pos hreseeded, ← List.append_assoc]
      have hreseed := h.output.snoc (e := .reseeded p.serial) nofun
      split
      · refine hreseed.snoc fun serial bytes he _ => ?_
        cases he
        exact List.mem_append_right _ (List.mem_singleton_self _)
      · rw [List.append_nil]
        exact hreseed
    · rw [hreseeded, if_neg Bool.false_ne_true, List.nil_append]
      split
      · rename_i hout
        refine h.output.snoc fun serial bytes he hforked => ?_
        cases he
        exact h.own pid p hp (hsame hout.1) hforked
      · rw [List.append_nil]
        exact h.output

theorem WorldInv.step {w w' : World δ} (h : WorldInv w) (hs : FreshStep w w') : WorldInv w' := by
  obtain ⟨a, hfresh, hs⟩ := hs
  cases a with
  | fork parent child =>
    rcases hp : w.process parent with _ | p
    · rw [Random.step, hp] at hs
      cases hs
    rcases hc : w.process child with _ | c
    · rw [Random.step, hp, hc] at hs
      cases hs
      exact h.fork (hfresh p hp)
    · rw [Random.step, hp, hc] at hs
      cases hs
  | exit pid =>
    rcases hp : w.process pid with _ | p
    · rw [Random.step, hp] at hs
      cases hs
    · rw [Random.step, hp] at hs
      cases hs
      exact h.exit pid
  | generate pid d perso outputSize =>
    rcases hp : w.process pid with _ | p
    · rw [Random.step, hp] at hs
      cases hs
    · rw [Random.step, hp] at hs
      cases hs
      exact h.generate hp d perso outputSize

end TfPsaCrypto.Random
