import TfPsaCrypto.Builtin.IntDivInt

/-!
# Long division of bignums

`mbedtls_mpi_div_mpi` and `mbedtls_mpi_mod_mpi` of `bignum.c`, on the cells of a memory. A
decrement that wraps is not made, except where it undoes an increment that wrapped.
-/

namespace TfPsaCrypto

open Limbs

inductive DivFault where
  | mpi (e : MpiError)
  | index
  | wrap
  | fuel
  deriving DecidableEq, Repr

abbrev DivM := Except DivFault

def DivM.ofMpi {α : Type} : Except MpiError α → DivM α
  | .ok a => .ok a
  | .error e => .error (.mpi e)

/-! ## Functions -/

def bitsToLimbs (w i : Nat) : Nat := i / w + if i % w ≠ 0 then 1 else 0

def mbedtlsMpiLset (X : MpiNum) (z : Int) : Except MpiError MpiNum := X.grow 1 z

def mbedtlsMpiShiftL (w : Nat) (X : MpiNum) (count : Nat) : Except MpiError MpiNum :=
  let i := X.val.natAbs.size + count
  if X.n * w < i then X.grow (bitsToLimbs w i) (X.val * 2 ^ count)
  else .ok { X with val := X.val * 2 ^ count }

def mbedtlsMpiShiftR (X : MpiNum) (count : Nat) : MpiNum :=
  { X with val := X.val.tdiv (2 ^ count) }

def mbedtlsMpiMulInt {w : Nat} (X A : MpiNum) (b : BitVec w) : Except MpiError MpiNum :=
  if b = 0 ∨ A.val = 0 then mbedtlsMpiLset X 0
  else X.grow (limbCount w A.val + 1) (A.val * b.toNat)

def mbedtlsMpiAddMpi (w : Nat) (X A B : MpiNum) : Except MpiError MpiNum :=
  if A.val < 0 ↔ B.val < 0 then
    (mbedtlsMpiAddAbs w X A B).map fun X => { X with val := A.val + B.val }
  else
    X.grow (if B.val.natAbs ≤ A.val.natAbs then A.n else B.n) (A.val + B.val)

def MpiNum.limb (w : Nat) (X : MpiNum) (i : Nat) : DivM (BitVec w) :=
  if i < X.n then .ok (BitVec.ofNat w (X.val.natAbs / 2 ^ (w * i))) else .error .index

def MpiNum.limbBelow (w : Nat) (X : MpiNum) (i k : Nat) : DivM (BitVec w) :=
  if i < k then .ok 0 else X.limb w (i - k)

section Digits

variable {w : Nat}

def setLimb (p : List (BitVec w)) (i : Nat) (x : BitVec w) : DivM (List (BitVec w)) :=
  if i < p.length then .ok (p.set i x) else .error .index

/-- `Z.p[i]--`; `wrapped` where the limb is 0 because an increment of it wrapped. -/
def decLimb (p : List (BitVec w)) (i : Nat) (wrapped : Bool) : DivM (List (BitVec w)) :=
  if p.getD i 0 = 0 ∧ wrapped = false then .error .wrap
  else setLimb p i (p.getD i 0 - 1)

/-- With or without `MBEDTLS_HAVE_UDBL`. -/
def mbedtlsIntDivInt (udbl : Bool) (fuel : Nat) (u1 u0 d : BitVec w) : DivM (BitVec w) :=
  if udbl then .ok (mbedtlsIntDivIntUdbl u1 u0 d).quotient
  else
    match mbedtlsIntDivIntHalf fuel u1 u0 d with
    | none => .error .fuel
    | some result => .ok result.quotient

def divEstimate (udbl : Bool) (fuel : Nat) (x2 x1 yt : BitVec w) : DivM (BitVec w) :=
  if x2 ≥ yt then .ok (~~~0) else mbedtlsIntDivInt udbl fuel x2 x1 yt

def divLeadLoop (Y : MpiNum) (j : Nat) :
    Nat → MpiNum → List (BitVec w) → DivM (MpiNum × List (BitVec w))
  | 0, _, _ => .error .fuel
  | fuel + 1, X, Z =>
    if Y.val ≤ X.val then do
      let Z ← setLimb Z j (Z.getD j 0 + 1)
      let X ← DivM.ofMpi (mbedtlsMpiSubMpi w X X Y)
      divLeadLoop Y j fuel X Z
    else .ok (X, Z)

/-- The product of `Z.p[j]` and the two leading limbs of `Y`, in `T1`. -/
def divLeadProduct (Y : MpiNum) (t : Nat) (T1 : MpiNum) (z : BitVec w) : DivM MpiNum := do
  let T1 ← DivM.ofMpi (mbedtlsMpiLset T1 0)
  let low ← Y.limbBelow w t 1
  let high ← Y.limb w t
  if T1.n < 2 then .error .index
  else
    DivM.ofMpi (mbedtlsMpiMulInt { T1 with val := low.toNat + 2 ^ w * high.toNat }
      { T1 with val := low.toNat + 2 ^ w * high.toNat } z)

def divCorrectLoop (Y : MpiNum) (t j : Nat) (T2 : Int) :
    Nat → Bool → MpiNum → List (BitVec w) → DivM (MpiNum × List (BitVec w))
  | 0, _, _, _ => .error .fuel
  | fuel + 1, wrapped, T1, Z => do
    let Z ← decLimb Z j wrapped
    let T1 ← divLeadProduct Y t T1 (Z.getD j 0)
    if T1.val > T2 then divCorrectLoop Y t j T2 fuel false T1 Z else .ok (T1, Z)

/-- What happened at one digit: whether the increment before the correction wrapped, whether `Y`
was added back, and the remainder after that. -/
structure DivDigit where
  wrapped : Bool
  addedBack : Bool
  rest : Int
  deriving DecidableEq, Repr

structure DivState (w : Nat) where
  X : MpiNum
  T1 : MpiNum
  Z : List (BitVec w)
  digits : List DivDigit

def divDigit (udbl : Bool) (fuel : Nat) (Y : MpiNum) (t i : Nat) (s : DivState w) :
    DivM (DivState w) := do
  let x2 ← s.X.limb w i
  let yt ← Y.limb w t
  let x1 ← s.X.limbBelow w i 1
  let estimate ← divEstimate udbl fuel x2 x1 yt
  let Z ← setLimb s.Z (i - t - 1) estimate
  let x0 ← s.X.limbBelow w i 2
  let T2 : Int := x0.toNat + 2 ^ w * (x1.toNat + 2 ^ w * x2.toNat)
  let Z ← setLimb Z (i - t - 1) (Z.getD (i - t - 1) 0 + 1)
  let wrapped := decide (Z.getD (i - t - 1) 0 = 0)
  let (T1, Z) ← divCorrectLoop Y t (i - t - 1) T2 fuel wrapped s.T1 Z
  let T1 ← DivM.ofMpi (mbedtlsMpiMulInt T1 Y (Z.getD (i - t - 1) 0))
  let T1 ← DivM.ofMpi (mbedtlsMpiShiftL w T1 (w * (i - t - 1)))
  let X ← DivM.ofMpi (mbedtlsMpiSubMpi w s.X s.X T1)
  if X.val < 0 then do
    let T1 ← DivM.ofMpi (mbedtlsMpiCopy w T1 Y)
    let T1 ← DivM.ofMpi (mbedtlsMpiShiftL w T1 (w * (i - t - 1)))
    let X ← DivM.ofMpi (mbedtlsMpiAddMpi w X X T1)
    let Z ← decLimb Z (i - t - 1) false
    .ok { X := X, T1 := T1, Z := Z, digits := s.digits ++ [⟨wrapped, true, X.val⟩] }
  else
    .ok { X := X, T1 := T1, Z := Z, digits := s.digits ++ [⟨wrapped, false, X.val⟩] }

def divDigitLoop (udbl : Bool) (fuel : Nat) (Y : MpiNum) (t : Nat) :
    Nat → DivState w → DivM (DivState w)
  | 0, s => .ok s
  | i + 1, s =>
    if i + 1 > t then do
      let s ← divDigit udbl fuel Y t (i + 1) s
      divDigitLoop udbl fuel Y t i s
    else .ok s

end Digits

/-- The quotient `Z` and the remainder `X` of the absolute values, the remainder still shifted by
`k` bits. -/
structure DivResult (w : Nat) where
  Z : List (BitVec w)
  X : MpiNum
  k : Nat
  digits : List DivDigit

def divShift (w b : Nat) : Nat := if b.size % w < w - 1 then w - 1 - b.size % w else 0

/-- The shift that gives the highest limb of `Y` all its bits but one. -/
def divNormalise (w : Nat) (X : MpiNum) (k : Nat) : DivM MpiNum :=
  if k = 0 then .ok X else DivM.ofMpi (mbedtlsMpiShiftL w X k)

/-- `mbedtls_mpi_div_mpi` where `|A| >= |B|`, up to the assignment of `Q` and `R`. -/
def divAbs (w : Nat) (udbl : Bool) (fuel : Nat) (A B : MpiNum) : DivM (DivResult w) := do
  let X ← DivM.ofMpi (mbedtlsMpiCopy w .init { A with val := A.val.natAbs })
  let Y ← DivM.ofMpi (mbedtlsMpiCopy w .init { B with val := B.val.natAbs })
  let Z ← DivM.ofMpi (MpiNum.init.grow (A.n + 2) 0)
  let T1 ← DivM.ofMpi (MpiNum.init.grow (A.n + 2) 0)
  let k := divShift w Y.val.natAbs
  let X ← divNormalise w X k
  let Y ← divNormalise w Y k
  let n := X.n - 1
  let t := Y.n - 1
  let Y ← DivM.ofMpi (mbedtlsMpiShiftL w Y (w * (n - t)))
  let (X, Z) ← divLeadLoop Y (n - t) fuel X (List.replicate Z.n 0)
  let Y := mbedtlsMpiShiftR Y (w * (n - t))
  let s ← divDigitLoop udbl fuel Y t n { X := X, T1 := T1, Z := Z, digits := [] }
  .ok { Z := s.Z, X := s.X, k := k, digits := s.digits }

/-! ## Cells -/

section Cells

variable {V : Type} [DecidableEq V]

/-- `mbedtls_mpi_lset(Q, 0)` where `Q` is not null. -/
def lsetCell (mem : V → MpiNum) (Q : Option V) : DivM (V → MpiNum) :=
  match Q with
  | none => .ok mem
  | some q => do
    let X ← DivM.ofMpi (mbedtlsMpiLset (mem q) 0)
    .ok (Function.update mem q X)

/-- `mbedtls_mpi_copy(R, A)` where `R` is not null. -/
def copyCell (w : Nat) (mem : V → MpiNum) (R : Option V) (A : V) : DivM (V → MpiNum) :=
  match R with
  | none => .ok mem
  | some r =>
    if r = A then .ok mem
    else do
      let X ← DivM.ofMpi (mbedtlsMpiCopy w (mem r) (mem A))
      .ok (Function.update mem r X)

def MpiNum.s (X : MpiNum) : Int := if X.val < 0 then -1 else 1

/-- `mbedtls_mpi_copy(Q, &Z); Q->s = A->s * B->s;`: the signs are those after the copy. -/
def storeQuotient {w : Nat} (mem : V → MpiNum) (Q : Option V) (A B : V) (Z : List (BitVec w)) :
    DivM (V → MpiNum) :=
  match Q with
  | none => .ok mem
  | some q => do
    let X ← DivM.ofMpi (mbedtlsMpiCopy w (mem q) ⟨value Z, Z.length⟩)
    let mem := Function.update mem q X
    .ok (Function.update mem q { X with val := (mem A).s * (mem B).s * X.val })

def storeRemainder (w : Nat) (mem : V → MpiNum) (R : Option V) (A : V) (X : MpiNum) (k : Nat) :
    DivM (V → MpiNum) :=
  match R with
  | none => .ok mem
  | some r => do
    let X := mbedtlsMpiShiftR X k
    let X ← DivM.ofMpi (mbedtlsMpiCopy w (mem r) { X with val := (mem A).s * X.val })
    .ok (Function.update mem r X)

/-- `none` is a null `Q` or `R`. -/
def mbedtlsMpiDivMpi (w : Nat) (udbl : Bool) (fuel : Nat) (mem : V → MpiNum) (Q R : Option V)
    (A B : V) : DivM ((V → MpiNum) × List DivDigit) :=
  if (mem B).val = 0 then .error (.mpi .divisionByZero)
  else if (mem A).val.natAbs < (mem B).val.natAbs then do
    let mem ← lsetCell mem Q
    let mem ← copyCell w mem R A
    .ok (mem, [])
  else do
    let result ← divAbs w udbl fuel (mem A) (mem B)
    let mem ← storeQuotient mem Q A B result.Z
    let mem ← storeRemainder w mem R A result.X result.k
    .ok (mem, result.digits)

def modNegLoop (w : Nat) (R B : V) : Nat → (V → MpiNum) → DivM (V → MpiNum)
  | 0, _ => .error .fuel
  | fuel + 1, mem =>
    if (mem R).val < 0 then do
      let X ← DivM.ofMpi (mbedtlsMpiAddMpi w (mem R) (mem R) (mem B))
      modNegLoop w R B fuel (Function.update mem R X)
    else .ok mem

def modReduceLoop (w : Nat) (R B : V) : Nat → (V → MpiNum) → DivM (V → MpiNum)
  | 0, _ => .error .fuel
  | fuel + 1, mem =>
    if (mem B).val ≤ (mem R).val then do
      let X ← DivM.ofMpi (mbedtlsMpiSubMpi w (mem R) (mem R) (mem B))
      modReduceLoop w R B fuel (Function.update mem R X)
    else .ok mem

def mbedtlsMpiModMpiCells (w : Nat) (udbl : Bool) (fuel : Nat) (mem : V → MpiNum) (R A B : V) :
    DivM (V → MpiNum) :=
  if (mem B).val < 0 then .error (.mpi .negativeValue)
  else do
    let (mem, _) ← mbedtlsMpiDivMpi w udbl fuel mem none (some R) A B
    let mem ← modNegLoop w R B fuel mem
    modReduceLoop w R B fuel mem

end Cells

end TfPsaCrypto
