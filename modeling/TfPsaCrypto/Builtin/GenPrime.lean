import TfPsaCrypto.Builtin.Prime

/-!
# Prime generation

`mbedtls_mpi_gen_prime`, whose search for a safe prime can leave the requested size.
-/

namespace TfPsaCrypto.Prime

open Bytes Limbs
open Bignum (RandomError)
open Ecp (Rng)
open RsaPrivate (mbedtlsMpiMaxBits)

variable {σ ε : Type}

/-! ## Generation -/

def dhTests (w : Nat) (rng : Rng σ ε) (rounds : Nat) (X Y : MpiNum) : PrimeM σ ε Nat := do
  let ret ← PrimeM.ofMpi (mpiCheckSmallFactors X)
  if ret ≠ 0 then pure ret
  else
    let ret ← PrimeM.ofMpi (mpiCheckSmallFactors Y)
    if ret ≠ 0 then pure ret
    else
      mpiMillerRabin w rng X rounds
      mpiMillerRabin w rng Y rounds
      pure 0

def dhNext (w : Nat) (X Y : MpiNum) : Except MpiError (MpiNum × MpiNum) := do
  let X ← mbedtlsMpiAddMpi w X X ⟨12, 1⟩
  let Y ← mbedtlsMpiAddMpi w Y Y ⟨6, 1⟩
  pure (X, Y)

variable {w nbits fuel rounds ret : Nat} {rng : Rng σ ε} {s s' : σ} {X : MpiNum}

variable {Y X' Y' : MpiNum}

def primesFrom : List Nat → Nat → List Nat
  | [], _ => []
  | gap :: gaps, p => p :: primesFrom gaps (p + gap)

def IsTablePrime (X : MpiNum) : Prop := ∃ p ∈ primesFrom smallPrimeGaps 3, X.val = p

theorem smallFactorsLoop_ok {gaps : List Nat} {p : Nat} (h : smallFactorsLoop X gaps p = .ok ret) :
    ret = 0 ∨ (ret = 1 ∧ ∃ q ∈ primesFrom gaps p, X.val = q) := by
  induction gaps generalizing p with
  | nil =>
    cases h
    exact .inl rfl
  | cons gap gaps ih =>
    unfold smallFactorsLoop at h
    split at h
    · split at h
      · next heq =>
        cases h
        exact .inr ⟨rfl, p, List.mem_cons_self, heq⟩
      · cases h
    · rcases ih h with hzero | ⟨hone, q, hq, heq⟩
      · exact .inl hzero
      · exact .inr ⟨hone, q, List.mem_cons_of_mem _ hq, heq⟩

theorem mpiCheckSmallFactors_ok (h : mpiCheckSmallFactors X = .ok ret) :
    X.val % 2 ≠ 0 ∧ (ret = 0 ∨ (ret = 1 ∧ IsTablePrime X)) := by
  unfold mpiCheckSmallFactors at h
  split at h
  · cases h
  · next hodd => exact ⟨hodd, smallFactorsLoop_ok h⟩

/-- The pairs that the search of `mbedtls_mpi_gen_prime` goes through, with the states of the
generator before their tests. -/
inductive DhSteps (w : Nat) (rng : Rng σ ε) (rounds : Nat) (X Y : MpiNum) (s : σ) :
    MpiNum → MpiNum → σ → Prop where
  | start : DhSteps w rng rounds X Y s X Y s
  | next {X₁ Y₁ X₂ Y₂ : MpiNum} {s₁ s₂ : σ} (hsteps : DhSteps w rng rounds X Y s X₁ Y₁ s₁)
      (htests : dhTests w rng rounds X₁ Y₁ s₁ = .ok (.error (.mpi .notAcceptable), s₂))
      (hnext : dhNext w X₁ Y₁ = .ok (X₂, Y₂)) : DhSteps w rng rounds X Y s X₂ Y₂ s₂

structure IsPair (nbits : Nat) (X Y : MpiNum) : Prop where
  low : 2 ^ (nbits - 1) ≤ X.val
  odd : X.val % 2 = 1
  half : Y.val = (X.val - 1) / 2

theorem dhNext_val (h : dhNext w X Y = .ok (X', Y')) :
    X'.val = X.val + 12 ∧ Y'.val = Y.val + 6 := by
  unfold dhNext at h
  cases hX : mbedtlsMpiAddMpi w X X ⟨12, 1⟩ with
  | error e =>
    rw [hX] at h
    cases h
  | ok X₁ =>
    cases hY : mbedtlsMpiAddMpi w Y Y ⟨6, 1⟩ with
    | error e =>
      rw [hX, hY] at h
      cases h
    | ok Y₁ =>
      rw [hX, hY] at h
      cases h
      exact ⟨mbedtlsMpiAddMpi_val hX, mbedtlsMpiAddMpi_val hY⟩

theorem IsPair.next (hpair : IsPair nbits X Y) (h : dhNext w X Y = .ok (X', Y')) :
    IsPair nbits X' Y' := by
  obtain ⟨hlow, hodd, hhalf⟩ := hpair
  obtain ⟨hX, hY⟩ := dhNext_val h
  exact ⟨by omega, by omega, by omega⟩

theorem IsPair.steps (hpair : IsPair nbits X Y) (h : DhSteps w rng rounds X Y s X' Y' s') :
    IsPair nbits X' Y' := by
  induction h with
  | start => exact hpair
  | next _ _ hnext ih => exact ih.next hnext

end TfPsaCrypto.Prime
