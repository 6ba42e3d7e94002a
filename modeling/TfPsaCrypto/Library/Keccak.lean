import TfPsaCrypto.Library.Blocks

/-!
# Keccak

The permutation KECCAK-f[1600] of FIPS 202 on state arrays of bits: `A x y z` is the bit `z` of
the lane `(x, y)`. The arrays are read from strings of 200 bytes.
-/

namespace Keccak

open Blocks (Block)

abbrev StateArray := Fin 5 → Fin 5 → Fin 64 → Bool

/-! ## Step mappings -/

def columnParity (A : StateArray) (x : Fin 5) (z : Fin 64) : Bool :=
  A x 0 z ^^ A x 1 z ^^ A x 2 z ^^ A x 3 z ^^ A x 4 z

def theta (A : StateArray) : StateArray := fun x y z =>
  A x y z ^^ (columnParity A (x - 1) z ^^ columnParity A (x + 1) (z - 1))

/-- The offsets of `rho` for `n` moves from the lane `(x, y)`, the next move the `t`-th. -/
def rhoWalk : Nat → Nat → Fin 5 → Fin 5 → Fin 5 → Fin 5 → Fin 64
  | 0, _, _, _ => fun _ _ => 0
  | n + 1, t, x, y => fun x' y' =>
    if x' = x ∧ y' = y then Fin.ofNat 64 ((t + 1) * (t + 2) / 2)
    else rhoWalk n (t + 1) y (2 * x + 3 * y) x' y'

def rhoOffset : Fin 5 → Fin 5 → Fin 64 := rhoWalk 24 0 1 0

def rho (A : StateArray) : StateArray := fun x y z => A x y (z - rhoOffset x y)

def pi (A : StateArray) : StateArray := fun x y z => A (x + 3 * y) x z

def chi (A : StateArray) : StateArray := fun x y z =>
  A x y z ^^ (!A (x + 1) y z && A (x + 2) y z)

def lfsrStep : List Bool → List Bool
  | [r0, r1, r2, r3, r4, r5, r6, r7] => [r7, r0, r1, r2, r3 ^^ r7, r4 ^^ r7, r5 ^^ r7, r6]
  | r => r

def rc (t : Nat) : Bool :=
  ((lfsrStep^[t % 255]) [true, false, false, false, false, false, false, false]).headD false

/-- The round constant: only the bits `2 ^ j - 1` may be set. -/
def roundConstant (round : Nat) (z : Nat) : Bool :=
  (List.range 7).any fun j => z == 2 ^ j - 1 && rc (j + 7 * round)

def iota (round : Nat) (A : StateArray) : StateArray := fun x y z =>
  if x = 0 ∧ y = 0 then A x y z ^^ roundConstant round z else A x y z

def round (A : StateArray) (i : Nat) : StateArray := iota i (chi (pi (rho (theta A))))

def keccakF (A : StateArray) : StateArray := (List.range 24).foldl round A

/-! ## Strings -/

def ofString (S : Block 200) : StateArray := fun x y z =>
  (S ⟨8 * (x.val + 5 * y.val) + z.val / 8, by omega⟩).toBitVec.getLsbD (z.val % 8)

def toString (A : StateArray) : Block 200 := fun k =>
  ⟨(BitVec.ofBoolListLE (List.ofFn fun i : Fin 8 => A (Fin.ofNat 5 (k.val / 8))
    (Fin.ofNat 5 (k.val / 40)) (Fin.ofNat 64 (8 * (k.val % 8) + i.val)))).setWidth 8⟩

@[irreducible] def keccakFString (S : Block 200) : Block 200 := toString (keccakF (ofString S))

end Keccak
