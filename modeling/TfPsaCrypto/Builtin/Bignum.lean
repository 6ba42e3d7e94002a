import TfPsaCrypto.Builtin.BignumBytes

/-!
# Bignums

`mbedtls_mpi` of `bignum.c`, and its import and export as big-endian bytes. `mbedtls_calloc`
returns memory.
-/

namespace TfPsaCrypto

open Bytes Limbs

variable {w : Nat}

def mbedtlsMpiMaxLimbs : Nat := 10000

/-- The sign, and the limbs; `n` is their number, and `p` is null where there are none. -/
structure MbedtlsMpi (w : Nat) where
  s : Int
  p : List (BitVec w)

structure MpiRet (w : Nat) where
  ret : Option MpiError
  X : MbedtlsMpi w

namespace MbedtlsMpi

def n (X : MbedtlsMpi w) : Nat := X.p.length

def abs (X : MbedtlsMpi w) : Nat := value X.p

def toInt (X : MbedtlsMpi w) : Int := X.s * X.abs

/-- `mbedtls_mpi_init`, and what `mbedtls_mpi_free` leaves. -/
def init : MbedtlsMpi w := { s := 1, p := [] }

def returns (X : MbedtlsMpi w) (ret : Option MpiError) : MpiRet w := { ret := ret, X := X }

end MbedtlsMpi

/-! ## Allocation -/

def mbedtlsMpiGrow (X : MbedtlsMpi w) (nblimbs : Nat) : MpiRet w :=
  if nblimbs > mbedtlsMpiMaxLimbs then
    X.returns (some .allocFailed)
  else if X.n < nblimbs then
    { X with p := X.p ++ List.replicate (nblimbs - X.n) 0 }.returns none
  else
    X.returns none

def mbedtlsMpiResizeClear (X : MbedtlsMpi w) (limbs : Nat) : MpiRet w :=
  if limbs = 0 then
    MbedtlsMpi.init.returns none
  else if X.n = limbs then
    { s := 1, p := List.replicate limbs 0 : MbedtlsMpi w }.returns none
  else
    mbedtlsMpiGrow .init limbs

/-! ## Import and export -/

def mbedtlsMpiBitlen (X : MbedtlsMpi w) : Nat := mbedtlsMpiCoreBitlen X.p

def mbedtlsMpiSize (X : MbedtlsMpi w) : Nat := (mbedtlsMpiBitlen X + 7) / 8

def mbedtlsMpiReadBinary (isBigEndian : Bool) (X : MbedtlsMpi w) (buf : ByteString) : MpiRet w :=
  let resized := mbedtlsMpiResizeClear X (charsToLimbs w buf.length)
  if resized.ret ≠ none then resized
  else
    match mbedtlsMpiCoreReadBe isBigEndian resized.X.n buf with
    | .error e => resized.X.returns (some e)
    | .ok p => { resized.X with p := p }.returns none

def mbedtlsMpiWriteBinary (X : MbedtlsMpi w) (buflen : Nat) : Except MpiError ByteString :=
  mbedtlsMpiCoreWriteBe X.p buflen

theorem mbedtlsMpiBitlen_eq (X : MbedtlsMpi w) : mbedtlsMpiBitlen X = X.abs.size :=
  mbedtlsMpiCoreBitlen_eq X.p

theorem mbedtlsMpiResizeClear_of_le {limbs : Nat} (h : limbs ≤ mbedtlsMpiMaxLimbs)
    (X : MbedtlsMpi w) :
    mbedtlsMpiResizeClear X limbs =
      { s := 1, p := List.replicate limbs 0 : MbedtlsMpi w }.returns none := by
  unfold mbedtlsMpiResizeClear
  split
  · next hzero =>
    subst hzero
    rfl
  next hne =>
  split
  · rfl
  · unfold mbedtlsMpiGrow
    rw [if_neg (by omega), if_pos (show MbedtlsMpi.init.n < limbs from Nat.pos_of_ne_zero hne)]
    rfl

theorem mbedtlsMpiReadBinary_of_le (hw : 0 < ciL w) (hbits : w = 8 * ciL w) (isBigEndian : Bool)
    (X : MbedtlsMpi w) {buf : ByteString}
    (h : charsToLimbs w buf.length ≤ mbedtlsMpiMaxLimbs) :
    ∃ X' : MbedtlsMpi w, mbedtlsMpiReadBinary isBigEndian X buf = X'.returns none ∧
      X'.s = 1 ∧ X'.n = charsToLimbs w buf.length ∧ X'.abs = ofBE buf := by
  obtain ⟨p, hread, hlen, hvalue⟩ := mbedtlsMpiCoreReadBe_of_le hw hbits isBigEndian
    (Nat.le_refl (charsToLimbs w buf.length))
  have hn : ({ s := 1, p := List.replicate (charsToLimbs w buf.length) 0 } : MbedtlsMpi w).n =
      charsToLimbs w buf.length := List.length_replicate
  refine ⟨{ s := 1, p := p }, ?_, rfl, hlen, hvalue⟩
  unfold mbedtlsMpiReadBinary
  simp only [mbedtlsMpiResizeClear_of_le h]
  rw [if_neg (by simp [MbedtlsMpi.returns])]
  simp only [MbedtlsMpi.returns, hn, hread]

end TfPsaCrypto
