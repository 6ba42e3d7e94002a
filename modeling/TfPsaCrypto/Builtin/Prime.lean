import TfPsaCrypto.Builtin.BignumRandom
import TfPsaCrypto.Builtin.RsaPrivate

/-!
# Primality tests

`mpi_check_small_factors`, `mpi_miller_rabin` and `mbedtls_mpi_is_prime_ext` of `bignum.c`, on
numbers and their limb counts.
-/

namespace TfPsaCrypto.Prime

open Bytes Limbs
open Bignum (RandomError)
open Ecp (Rng)
open RsaPrivate (mbedtlsMpiMaxBits)

variable {σ ε : Type}

/-! ## Primality tests -/

/-- Why a run does not return: a shift by the limb width or more, which is undefined, or not enough
fuel for the loops. -/
inductive PrimeFault where
  | undefinedShift
  | fuel
  deriving DecidableEq, Repr

/-- A function that draws random bytes. The state is kept with an error, since
`MBEDTLS_ERR_MPI_NOT_ACCEPTABLE` starts the next candidate. -/
abbrev PrimeM (σ ε : Type) := ExceptT (RandomError ε) (StateT σ (Except PrimeFault))

namespace PrimeM

def ofMpi {α : Type} (r : Except MpiError α) : PrimeM σ ε α := fun s => .ok (r.mapError .mpi, s)

def fault {α : Type} (f : PrimeFault) : PrimeM σ ε α := fun _ => .error f

end PrimeM

def smallPrimeGaps : List Nat := [
  2, 2, 4, 2, 4, 2, 4, 6,
  2, 6, 4, 2, 4, 6, 6, 2,
  6, 4, 2, 6, 4, 6, 8, 4,
  2, 4, 2, 4, 14, 4, 6, 2,
  10, 2, 6, 6, 4, 6, 6, 2,
  10, 2, 4, 2, 12, 12, 4, 2,
  4, 6, 2, 10, 6, 6, 6, 2,
  6, 4, 2, 10, 14, 4, 2, 4,
  14, 6, 10, 2, 4, 6, 8, 6,
  6, 4, 6, 8, 4, 8, 10, 2,
  10, 2, 6, 4, 6, 8, 4, 2,
  4, 12, 8, 4, 8, 4, 6, 12,
  2, 18, 6, 10, 6, 6, 2, 6,
  10, 6, 6, 2, 6, 6, 4, 2,
  12, 10, 2, 4, 6, 6, 2, 12,
  4, 6, 8, 10, 8, 10, 8, 6,
  6, 4, 8, 6, 4, 8, 4, 14,
  10, 12, 2, 10, 2, 4, 2, 10,
  14, 4, 2, 4, 14, 4, 2, 4,
  20, 4, 8, 10, 8, 4, 6, 6,
  14, 4, 6, 6, 8, 6,
  0]

def smallFactorsLoop (X : MpiNum) : List Nat → Nat → Except MpiError Nat
  | [], _ => .ok 0
  | gap :: gaps, p =>
    if X.val % p = 0 then
      if X.val = p then .ok 1 else .error .notAcceptable
    else smallFactorsLoop X gaps (p + gap)

def mpiCheckSmallFactors (X : MpiNum) : Except MpiError Nat :=
  if X.val % 2 = 0 then .error .notAcceptable else smallFactorsLoop X smallPrimeGaps 3

def mbedtlsMpiFillRandom (w : Nat) (rng : Rng σ ε) (size : Nat) : PrimeM σ ε MpiNum := fun s =>
  let limbs := charsToLimbs w size
  if limbs > mbedtlsMpiMaxLimbs then .ok (.error (.mpi .allocFailed), s)
  else if size = 0 then .ok (.ok ⟨0, limbs⟩, s)
  else
    match rng.draw s size with
    | .error e => .ok (.error (.rng e), s)
    | .ok (bytes, s) => .ok (.ok ⟨ofBE bytes, limbs⟩, s)

def mbedtlsMpiLsb (X : MpiNum) : Nat :=
  ((List.range X.val.natAbs.size).find? fun i => X.val.natAbs.testBit i).getD 0

/-- With the square of the Montgomery radix that it computes. -/
def mbedtlsMpiExpMod (w : Nat) (X A E N : MpiNum) : Except MpiError MpiNum :=
  if N.val ≤ 0 ∨ N.val % 2 = 0 then .error .badInputData
  else if E.val < 0 then .error .badInputData
  else if E.val.natAbs.size > mbedtlsMpiMaxBits ∨ N.val.natAbs.size > mbedtlsMpiMaxBits then
    .error .badInputData
  else if E.n = 0 then mbedtlsMpiLset X 1
  else do
    let RR ← mbedtlsMpiLset .init 1
    let RR ← mbedtlsMpiShiftL w RR (N.n * 2 * w)
    let _ ← mbedtlsMpiModMpi w RR RR N
    let X ← mbedtlsMpiCopy w X A
    let X := { X with val := X.val.natAbs }
    let X ← (if X.val ≥ N.val then mbedtlsMpiModMpi w X X N else .ok X)
    X.grow N.n (A.val ^ E.val.toNat % N.val)

/-- The mask on the highest limb of a candidate. The amount of the shift is a `size_t`. -/
def maskTop (w k : Nat) (A : MpiNum) : Except PrimeFault MpiNum :=
  let low := 2 ^ ((A.n - 1) * w)
  let shift := (((k : Int) - ((A.n - 1) * w : Nat) - 1) % 2 ^ 64).toNat
  if w ≤ shift then .error .undefinedShift
  else .ok { A with val := A.val % low + low * (A.val / low % 2 ^ shift) }

/-- The `do … while` that picks a random `A`, with `left` draws left. -/
def randomBaseLoop (w : Nat) (rng : Rng σ ε) (X W : MpiNum) : Nat → PrimeM σ ε MpiNum
  | 0 => throw (.mpi .notAcceptable)
  | left + 1 => do
    let A ← mbedtlsMpiFillRandom w rng (X.n * ciL w)
    let j := A.val.natAbs.size
    let k := W.val.natAbs.size
    let A ← (if j > k then
      match maskTop w k A with
      | .error f => PrimeM.fault f
      | .ok A => pure A
      else pure A)
    if left = 0 then throw (.mpi .notAcceptable)
    else if A.val ≥ W.val ∨ A.val ≤ 1 then randomBaseLoop w rng X W left
    else pure A

def squareLoop (w : Nat) (X W : MpiNum) : Nat → MpiNum → MpiNum → Except MpiError MpiNum
  | 0, _, A => .ok A
  | left + 1, T, A =>
    if A.val = W.val then .ok A
    else do
      let T ← mbedtlsMpiMulMpi w T A A
      let A ← mbedtlsMpiModMpi w A T X
      if A.val = 1 then .ok A else squareLoop w X W left T A

def millerRabinLoop (w : Nat) (rng : Rng σ ε) (X W R : MpiNum) (s : Nat) : Nat → PrimeM σ ε Unit
  | 0 => pure ()
  | rounds + 1 => do
    let A ← randomBaseLoop w rng X W 32
    let A ← PrimeM.ofMpi (mbedtlsMpiExpMod w A A R X)
    if A.val = W.val ∨ A.val = 1 then millerRabinLoop w rng X W R s rounds
    else
      let A ← PrimeM.ofMpi (squareLoop w X W (s - 1) .init A)
      if A.val ≠ W.val ∨ A.val = 1 then throw (.mpi .notAcceptable)
      else millerRabinLoop w rng X W R s rounds

def mpiMillerRabin (w : Nat) (rng : Rng σ ε) (X : MpiNum) (rounds : Nat) : PrimeM σ ε Unit := do
  let W ← PrimeM.ofMpi (mbedtlsMpiSubInt w .init X)
  let s := mbedtlsMpiLsb W
  let R ← PrimeM.ofMpi (mbedtlsMpiCopy w .init W)
  let R := mbedtlsMpiShiftR R s
  millerRabinLoop w rng X W R s rounds

def mbedtlsMpiIsPrimeExt (w : Nat) (rng : Rng σ ε) (X : MpiNum) (rounds : Nat) : PrimeM σ ε Unit :=
  let XX : MpiNum := { X with val := X.val.natAbs }
  if XX.val = 0 ∨ XX.val = 1 then throw (.mpi .notAcceptable)
  else if XX.val = 2 then pure ()
  else do
    let ret ← PrimeM.ofMpi (mpiCheckSmallFactors XX)
    if ret = 1 then pure () else mpiMillerRabin w rng XX rounds

/-! ## Runs that return -/

def Returns {α : Type} (x : PrimeM σ ε α) (s : σ) (a : α) (s' : σ) : Prop := x s = .ok (.ok a, s')

section

variable {α β : Type} {x : PrimeM σ ε α} {f : α → PrimeM σ ε β} {a a' : α} {b : β} {s s' : σ}

theorem returns_pure : Returns (pure a : PrimeM σ ε α) s a' s' ↔ a' = a ∧ s' = s := by
  constructor
  · intro h
    cases h
    exact ⟨rfl, rfl⟩
  · rintro ⟨rfl, rfl⟩
    rfl

theorem returns_bind :
    Returns (x >>= f) s b s' ↔ ∃ a s₁, Returns x s a s₁ ∧ Returns (f a) s₁ b s' := by
  unfold Returns
  have hbind : (x >>= f) s = match x s with
      | .error fault => .error fault
      | .ok (.error e, s₁) => .ok (.error e, s₁)
      | .ok (.ok a, s₁) => f a s₁ := by
    change Except.bind (x s) _ = _
    cases hx : x s with
    | error fault => rfl
    | ok r =>
      obtain ⟨r, s₁⟩ := r
      cases r <;> rfl
  rw [hbind]
  cases hx : x s with
  | error fault => simp
  | ok r =>
    obtain ⟨r, s₁⟩ := r
    cases r with
    | error e => simp
    | ok a => simp

theorem not_returns_fault {fault : PrimeFault} :
    ¬ Returns (PrimeM.fault fault : PrimeM σ ε α) s a s' := nofun

theorem not_returns_throw {e : RandomError ε} :
    ¬ Returns (throw e : PrimeM σ ε α) s a s' := nofun

end

end TfPsaCrypto.Prime
