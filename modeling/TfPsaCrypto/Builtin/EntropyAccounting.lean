import TfPsaCrypto.Builtin.Entropy
import TfPsaCrypto.Library.History

/-!
# Entropy is released only when accounted for

The log is the ledger: what each source contributed since the last output.
-/

namespace TfPsaCrypto

open Bytes Fallible History

variable {κ σ : Type} {e : EntropyEnv κ σ}

/-! ## The ledger -/

def EntropyEvent.isReleased : EntropyEvent → Bool
  | .released _ => true
  | _ => false

def sinceRelease (log : List EntropyEvent) : List EntropyEvent :=
  (log.reverse.takeWhile fun ev => !ev.isReleased).reverse

/-- The bytes that an event contributes for source `i`. -/
def EntropyEvent.contribution (i : Nat) : EntropyEvent → Nat
  | .absorbed j data => if j = i then data.length else 0
  | _ => 0

def contributed (i : Nat) (log : List EntropyEvent) : Nat :=
  (log.map (EntropyEvent.contribution i)).sum

def sourcesAdded (log : List EntropyEvent) : List (Nat × Int) :=
  log.filterMap fun
    | .added threshold strong => some (threshold, strong)
    | _ => none

def entropyRecord (e : EntropyEnv κ σ) (sourceId : Nat) (data : ByteString) : ByteString :=
  let p := if data.length > e.blockSize then e.md data else data
  [UInt8.ofNat sourceId, UInt8.ofNat p.length] ++ p

def accumulateEvent (e : EntropyEnv κ σ) (acc : ByteString) : EntropyEvent → ByteString
  | .absorbed sourceId data => acc ++ entropyRecord e sourceId data
  | .released _ => e.md acc
  | _ => acc

def accumulated (e : EntropyEnv κ σ) (log : List EntropyEvent) : ByteString :=
  log.foldl (accumulateEvent e) []

/-- The bytes of the strong sources, numbered from `i` on. -/
def strongContributed (log : List EntropyEvent) : Nat → List (Nat × Int) → Nat
  | _, [] => 0
  | i, src :: rest =>
    (if src.2 = mbedtlsEntropySourceStrong then contributed i log else 0) +
      strongContributed log (i + 1) rest

structure Accounted (e : EntropyEnv κ σ) (pre : List EntropyEvent) (output : ByteString) :
    Prop where
  threshold : ∀ i src, (sourcesAdded pre)[i]? = some src → src.1 ≤ contributed i (sinceRelease pre)
  strong : e.blockSize ≤ strongContributed (sinceRelease pre) 0 (sourcesAdded pre)
  output : ∃ len ≤ e.blockSize, output = (e.md (e.md (accumulated e pre))).take len

section Ledger

variable {log : List EntropyEvent} {ev : EntropyEvent}

theorem sinceRelease_snoc :
    sinceRelease (log ++ [ev]) = if ev.isReleased then [] else sinceRelease log ++ [ev] := by
  unfold sinceRelease
  rw [List.reverse_append, List.reverse_singleton, List.singleton_append, List.takeWhile_cons]
  cases ev.isReleased
  · simp
  · simp

theorem contributed_snoc (i : Nat) :
    contributed i (log ++ [ev]) = contributed i log + ev.contribution i := by
  simp [contributed]

theorem accumulated_snoc :
    accumulated e (log ++ [ev]) = accumulateEvent e (accumulated e log) ev := by
  unfold accumulated
  rw [List.foldl_append]
  rfl

theorem sourcesAdded_snoc :
    sourcesAdded (log ++ [ev]) = sourcesAdded log ++ sourcesAdded [ev] := by
  unfold sourcesAdded
  rw [List.filterMap_append]

end Ledger

/-! ## Operations that keep the log -/

section Keeps

variable {α β : Type} {m : EntropyProg κ σ α} {f : α → EntropyProg κ σ β}

def KeepsLog (m : EntropyProg κ σ α) : Prop := ∀ s, (m s).2.log = s.log

theorem KeepsLog.bind (hm : KeepsLog m) (hf : ∀ a, KeepsLog (f a)) : KeepsLog (m >>= f) := by
  intro s
  rcases hrun : m s with ⟨err | a, s'⟩
  · rw [bind_error hrun]
    have := hm s
    rw [hrun] at this
    exact this
  · rw [bind_ok hrun, hf a s']
    have := hm s
    rw [hrun] at this
    exact this

end Keeps

/-! ## Hash operations that succeed -/

/-- The accumulator holds `a`; before it is started, nothing. -/
def Holds (a : ByteString) (s : EntropyState κ σ) : Prop :=
  (s.ctx.accumulatorStarted = true ∧ s.ctx.accumulator = some a) ∨
    (s.ctx.accumulatorStarted = false ∧ s.ctx.accumulator = none ∧ a = [])

def withEnv (s : EntropyState κ σ) (env : σ) : EntropyState κ σ := { s with env := env }

section Total

variable (hmd : ∀ env, (e.mdOp env).1 = true) {s : EntropyState κ σ} {a : ByteString}

include hmd

end Total

/-! ## The invariant -/

structure EntropyInv (e : EntropyEnv κ σ) (s : EntropyState κ σ) : Prop where
  bound : s.ctx.source.length ≤ mbedtlsEntropyMaxSources
  holds : Holds (accumulated e s.log) s
  sources : sourcesAdded s.log = s.ctx.source.map fun src => (src.threshold, src.strong)
  sizes : ∀ i src, s.ctx.source[i]? = some src →
    src.size = contributed i (sinceRelease s.log) % e.sizeMod
  unused : ∀ i, s.ctx.source.length ≤ i → i < mbedtlsEntropyMaxSources →
    contributed i (sinceRelease s.log) = 0
  each : Each (fun pre ev => ∀ output, ev = .released output → Accounted e pre output) s.log

variable {s : EntropyState κ σ}

theorem EntropyInv.event (h : EntropyInv e s) {ev : EntropyEvent}
    (hacc : ∀ acc, accumulateEvent e acc ev = acc) (hrel : ev.isReleased = false)
    (hadd : sourcesAdded [ev] = []) (hcontr : ∀ i, ev.contribution i = 0) (env : σ) :
    EntropyInv e ((withEnv s env).event ev) := by
  have hsince : ∀ i, contributed i (sinceRelease (s.log ++ [ev])) =
      contributed i (sinceRelease s.log) := by
    intro i
    rw [sinceRelease_snoc, hrel, if_neg (by decide), contributed_snoc, hcontr, Nat.add_zero]
  constructor
  · exact h.bound
  · show Holds (accumulated e (s.log ++ [ev])) s
    rw [accumulated_snoc, hacc]
    exact h.holds
  · show sourcesAdded (s.log ++ [ev]) = _
    rw [sourcesAdded_snoc, hadd, List.append_nil]
    exact h.sources
  · intro i src hsrc
    show src.size = contributed i (sinceRelease (s.log ++ [ev])) % _
    rw [hsince]
    exact h.sizes i src hsrc
  · intro i hlen hlt
    show contributed i (sinceRelease (s.log ++ [ev])) = 0
    rw [hsince]
    exact h.unused i hlen hlt
  · show Each _ (s.log ++ [ev])
    rw [each_append_singleton]
    refine ⟨h.each, ?_⟩
    rintro output rfl
    cases hrel

theorem EntropyInv.env (h : EntropyInv e s) (env : σ) : EntropyInv e (withEnv s env) :=
  ⟨h.bound, h.holds, h.sources, h.sizes, h.unused, h.each⟩

variable {len : Nat} {output : ByteString}

section Calls

variable (hmd : ∀ env, (e.mdOp env).1 = true)

include hmd

end Calls

theorem EntropyInv.released (h : EntropyInv e s) (haccounted : Accounted e s.log output) (env : σ) :
    EntropyInv e (((withEnv s env).setCtx fun ctx =>
      { ctx with
          accumulator := some (e.md (accumulated e s.log))
          accumulatorStarted := true
          source := ctx.source.map fun src => { src with size := 0 } }).event
        (.released output)) := by
  have hsince : sinceRelease (s.log ++ [.released output]) = [] := by
    rw [sinceRelease_snoc]
    rfl
  constructor
  · show (s.ctx.source.map _).length ≤ _
    rw [List.length_map]
    exact h.bound
  · apply Or.inl
    refine ⟨rfl, ?_⟩
    show some _ = some (accumulated e (s.log ++ [.released output]))
    rw [accumulated_snoc]
    rfl
  · show sourcesAdded (s.log ++ [.released output]) = (s.ctx.source.map _).map _
    rw [sourcesAdded_snoc, List.map_map]
    exact (List.append_nil _).trans h.sources
  · intro i src hsrc
    show src.size = contributed i (sinceRelease (s.log ++ [.released output])) % e.sizeMod
    have hsrc' : (s.ctx.source.map fun src => { src with size := 0 })[i]? = some src := hsrc
    rw [List.getElem?_map] at hsrc'
    obtain ⟨src', _, rfl⟩ := Option.map_eq_some_iff.mp hsrc'
    rw [hsince]
    exact (Nat.zero_mod _).symm
  · intro i _ _
    show contributed i (sinceRelease (s.log ++ [.released output])) = 0
    rw [hsince]
    rfl
  · show Each _ (s.log ++ [.released output])
    rw [each_append_singleton]
    refine ⟨h.each, ?_⟩
    rintro output' ⟨⟩
    exact haccounted

theorem EntropyInv.added (h : EntropyInv e s)
    (hlen : s.ctx.source.length < mbedtlsEntropyMaxSources) (fSource : κ) (threshold : Nat)
    (strong : Int) :
    EntropyInv e ((s.setCtx fun ctx =>
      { ctx with
          source := ctx.source ++
            [{ fSource := fSource, size := 0, threshold := threshold, strong := strong }] }).event
        (.added threshold strong)) := by
  have hsince : ∀ i, contributed i (sinceRelease (s.log ++ [.added threshold strong])) =
      contributed i (sinceRelease s.log) := by
    intro i
    rw [sinceRelease_snoc, if_neg (by simp [EntropyEvent.isReleased]), contributed_snoc]
    rfl
  constructor
  · show (s.ctx.source ++ _).length ≤ _
    rw [List.length_append]
    exact hlen
  · show Holds (accumulated e (s.log ++ [.added threshold strong])) _
    rw [accumulated_snoc]
    exact h.holds
  · show sourcesAdded (s.log ++ [.added threshold strong]) = (s.ctx.source ++ _).map _
    rw [sourcesAdded_snoc, h.sources, List.map_append]
    rfl
  · intro i src hsrc
    show src.size = contributed i (sinceRelease (s.log ++ [.added threshold strong])) % _
    have hsrc' : (s.ctx.source ++ [{
        fSource := fSource, size := 0, threshold := threshold
        strong := strong }])[i]? = some src := hsrc
    rw [hsince]
    rcases Nat.lt_or_ge i s.ctx.source.length with hi | hi
    · rw [List.getElem?_append_left hi] at hsrc'
      exact h.sizes i src hsrc'
    rw [h.unused i hi (by
      have := (List.getElem?_eq_some_iff.mp hsrc').1
      rw [List.length_append, List.length_singleton] at this
      omega)]
    rw [List.getElem?_append_right hi] at hsrc'
    obtain ⟨_, hlast⟩ := List.getElem?_eq_some_iff.mp hsrc'
    rw [List.getElem_singleton] at hlast
    rw [← hlast]
    exact (Nat.zero_mod _).symm
  · intro i hi hlt
    show contributed i (sinceRelease (s.log ++ [.added threshold strong])) = 0
    have hi' : (s.ctx.source ++ [({
        fSource := fSource, size := 0, threshold := threshold, strong := strong } :
          EntropySource κ)]).length ≤ i := hi
    rw [List.length_append] at hi'
    rw [hsince, h.unused i (by omega) hlt]
  · show Each _ (s.log ++ [.added threshold strong])
    rw [each_append_singleton]
    refine ⟨h.each, ?_⟩
    rintro output ⟨⟩

section Release

variable (hmd : ∀ env, (e.mdOp env).1 = true)

include hmd

end Release

variable {s' : EntropyState κ σ}

section Polls

variable {α β : Type}

/-- The log grows at the end only, with at most `n j` polls of source `j`. -/
def PollsAtMost (n : Nat → Nat) (m : EntropyProg κ σ α) : Prop :=
  ∀ s, ∃ events, (m s).2.log = s.log ++ events ∧ ∀ j, events.count (.polled j) ≤ n j

variable {n n' : Nat → Nat} {m : EntropyProg κ σ α} {f : α → EntropyProg κ σ β}

theorem PollsAtMost.bind (hm : PollsAtMost n m) (hf : ∀ a, PollsAtMost n' (f a)) :
    PollsAtMost (fun j => n j + n' j) (m >>= f) := by
  intro s
  obtain ⟨first, hlog, hcount⟩ := hm s
  rcases hrun : m s with ⟨err | a, s'⟩
  · rw [bind_error hrun]
    rw [hrun] at hlog
    exact ⟨first, hlog, fun j => (hcount j).trans (Nat.le_add_right _ _)⟩
  rw [bind_ok hrun]
  rw [hrun] at hlog
  obtain ⟨second, hlog', hcount'⟩ := hf a s'
  refine ⟨first ++ second, ?_, fun j => ?_⟩
  · rw [hlog', ← List.append_assoc]
    exact congrArg (· ++ second) hlog
  · rw [List.count_append]
    exact Nat.add_le_add (hcount j) (hcount' j)

theorem PollsAtMost.mono (h : PollsAtMost n m) (hle : ∀ j, n j ≤ n' j) : PollsAtMost n' m := by
  intro s
  obtain ⟨events, hlog, hcount⟩ := h s
  exact ⟨events, hlog, fun j => (hcount j).trans (hle j)⟩

end Polls

/-! ## Runs -/

end TfPsaCrypto
