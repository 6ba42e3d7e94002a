import TfPsaCrypto.Library.Bytes
import TfPsaCrypto.Library.Fallible

/-!
# Multipart functions of byte strings

An object takes the input of a function in chunks: it is started, fed and finished.
-/

open Bytes (ByteString)

/-- The three calls, over objects in `σ` with errors `ε`. -/
structure Multipart (σ ε : Type) where
  starts : Fallible σ ε Unit
  update : ByteString → Fallible σ ε Unit
  finish : Fallible σ ε ByteString

namespace Multipart

variable {σ ε : Type} (M : Multipart σ ε)

def absorb : List ByteString → Fallible σ ε Unit
  | [] => pure ()
  | chunk :: chunks => do
    M.update chunk
    absorb chunks

def run (chunks : List ByteString) : Fallible σ ε ByteString := do
  M.starts
  M.absorb chunks
  M.finish

/-- From every object that may be started, every chunking of a message gives `H` of it, and the
object may be started again. -/
structure Computes (Ready : σ → Prop) (H : ByteString → ByteString) : Prop where
  chunked : ∀ s chunks, Ready s → ∃ s', M.run chunks s = (.ok (H chunks.flatten), s') ∧ Ready s'

def Absorbed (Ready : σ → Prop) (message : ByteString) (s : σ) : Prop :=
  ∃ s₀ s₁ chunks, Ready s₀ ∧ chunks.flatten = message ∧ M.starts s₀ = (.ok (), s₁) ∧
    M.absorb chunks s₁ = (.ok (), s)

variable {M} {Ready : σ → Prop} {H : ByteString → ByteString} {message : ByteString} {s s' : σ}

theorem absorb_append {xs ys : List ByteString} (h : M.absorb xs s = (.ok (), s')) :
    M.absorb (xs ++ ys) s = M.absorb ys s' := by
  induction xs generalizing s with
  | nil =>
    obtain ⟨⟩ := h
    rfl
  | cons x xs ih =>
    obtain ⟨_, s₁, hupdate, hrest⟩ := Fallible.bind_eq_ok h
    show (M.update x >>= fun _ => M.absorb (xs ++ ys)) s = _
    rw [Fallible.bind_ok hupdate]
    exact ih hrest

theorem run_cut {chunks : List ByteString} {out : ByteString}
    (h : M.run chunks s = (.ok out, s')) :
    ∃ s₁ s₂, M.starts s = (.ok (), s₁) ∧ M.absorb chunks s₁ = (.ok (), s₂) ∧
      M.finish s₂ = (.ok out, s') := by
  obtain ⟨_, s₁, hstarts, h⟩ := Fallible.bind_eq_ok h
  obtain ⟨_, s₂, habsorb, hfinish⟩ := Fallible.bind_eq_ok h
  exact ⟨s₁, s₂, hstarts, habsorb, hfinish⟩

/-! ## The three calls -/

theorem Computes.starts (h : M.Computes Ready H) (hs : Ready s) :
    ∃ s', M.starts s = (.ok (), s') ∧ M.Absorbed Ready [] s' := by
  obtain ⟨_, hrun, -⟩ := h.chunked s [] hs
  obtain ⟨s₁, _, hstarts, -, -⟩ := run_cut hrun
  exact ⟨s₁, hstarts, s, s₁, [], hs, rfl, hstarts, rfl⟩

theorem Computes.update (h : M.Computes Ready H) (ha : M.Absorbed Ready message s)
    (data : ByteString) :
    ∃ s', M.update data s = (.ok (), s') ∧ M.Absorbed Ready (message ++ data) s' := by
  obtain ⟨s₀, s₁, chunks, hready, rfl, hstarts, habsorb⟩ := ha
  obtain ⟨_, hrun, -⟩ := h.chunked s₀ (chunks ++ [data]) hready
  obtain ⟨s₁', s₂, hstarts', habsorb', -⟩ := run_cut hrun
  obtain ⟨-, rfl⟩ := Prod.mk.inj (hstarts.symm.trans hstarts')
  have hlast := (absorb_append habsorb).symm.trans habsorb'
  obtain ⟨_, s₃, hupdate, hnil⟩ := Fallible.bind_eq_ok hlast
  obtain ⟨-, rfl⟩ := Prod.mk.inj hnil
  refine ⟨s₃, hupdate, s₀, s₁, chunks ++ [data], hready, ?_, hstarts, habsorb'⟩
  rw [List.flatten_append, List.flatten_singleton]

theorem Computes.finish (h : M.Computes Ready H) (ha : M.Absorbed Ready message s) :
    ∃ s', M.finish s = (.ok (H message), s') ∧ Ready s' := by
  obtain ⟨s₀, s₁, chunks, hready, rfl, hstarts, habsorb⟩ := ha
  obtain ⟨s', hrun, hready'⟩ := h.chunked s₀ chunks hready
  obtain ⟨s₁', s₂, hstarts', habsorb', hfinish⟩ := run_cut hrun
  obtain ⟨-, rfl⟩ := Prod.mk.inj (hstarts.symm.trans hstarts')
  obtain ⟨-, rfl⟩ := Prod.mk.inj (habsorb.symm.trans habsorb')
  exact ⟨s', hfinish, hready'⟩

/-- An object that keeps the message and computes `H` of it at the end. -/
def buffered (H : ByteString → ByteString) : Multipart ByteString ε where
  starts := Fallible.update fun _ => []
  update data := Fallible.update fun message => message ++ data
  finish := do
    let message ← Fallible.read
    return H message

theorem buffered_absorb (chunks : List ByteString) (message : ByteString) :
    (buffered H : Multipart ByteString ε).absorb chunks message =
      (.ok (), message ++ chunks.flatten) := by
  induction chunks generalizing message with
  | nil =>
    rw [List.flatten_nil, List.append_nil]
    rfl
  | cons chunk chunks ih =>
    rw [List.flatten_cons, ← List.append_assoc]
    exact ih (message ++ chunk)

theorem buffered_computes (H : ByteString → ByteString) :
    (buffered H : Multipart ByteString ε).Computes (fun _ => True) H where
  chunked s chunks _ := by
    refine ⟨chunks.flatten, ?_, trivial⟩
    have hstarts : (buffered H : Multipart ByteString ε).starts s = (.ok (), []) := rfl
    unfold run
    rw [Fallible.bind_ok hstarts, Fallible.bind_ok (buffered_absorb chunks [])]
    rfl

end Multipart
