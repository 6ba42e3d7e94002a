import Mathlib.Data.Fin.VecNotation
import Mathlib.Data.Nat.Prime.Basic
import TfPsaCrypto.Library.BlockHash

/-!
# SHA-512 and SHA-384

The two hash functions of FIPS 180-4, for messages of whole bytes. The constants are what the
standard says they stand for: the first 64 bits of the fractional parts of roots of primes.
-/

namespace Sha2

open Bytes

abbrev Word := BitVec 64

/-- The chaining value, and the working variables `a` to `h`. -/
abbrev HashValue := Fin 8 → Word

/-! ## Functions -/

def ch (x y z : Word) : Word := (x &&& y) ^^^ (~~~x &&& z)

def maj (x y z : Word) : Word := (x &&& y) ^^^ (x &&& z) ^^^ (y &&& z)

def bigSigma0 (x : Word) : Word := x.rotateRight 28 ^^^ x.rotateRight 34 ^^^ x.rotateRight 39

def bigSigma1 (x : Word) : Word := x.rotateRight 14 ^^^ x.rotateRight 18 ^^^ x.rotateRight 41

def smallSigma0 (x : Word) : Word := x.rotateRight 1 ^^^ x.rotateRight 8 ^^^ (x >>> 7)

def smallSigma1 (x : Word) : Word := x.rotateRight 19 ^^^ x.rotateRight 61 ^^^ (x >>> 6)

/-! ## Constants -/

def primes : List Nat := (List.range 410).filter Nat.Prime

def cubeRoot (n : Nat) : Nat := Nat.findGreatest (fun r => r ^ 3 ≤ n) n

/-- The cube root of the prime `t`, in units of `2 ^ -64`; the word has the bits after the point. -/
def roundConstant (t : Nat) : Word := BitVec.ofNat 64 (cubeRoot (primes.getD t 0 * 2 ^ 192))

/-- The square root of the prime `t`. -/
def initialWord (t : Nat) : Word := BitVec.ofNat 64 (Nat.sqrt (primes.getD t 0 * 2 ^ 128))

theorem cubeRoot_eq {n r : Nat} (hle : r ^ 3 ≤ n) (hlt : n < (r + 1) ^ 3) : cubeRoot n = r := by
  unfold cubeRoot
  rw [Nat.findGreatest_eq_iff]
  refine ⟨Nat.le_trans (Nat.le_self_pow (by decide) r) hle, fun _ => hle, ?_⟩
  intro k hk _ hkn
  exact absurd (Nat.lt_of_le_of_lt hkn hlt) (Nat.not_lt.mpr (Nat.pow_le_pow_left hk 3))

/-! ## Compression -/

/-- The message schedule of the words `M`. -/
def schedule (M : Nat → Word) (t : Nat) : Word :=
  if t < 16 then M t
  else smallSigma1 (schedule M (t - 2)) + schedule M (t - 7) + smallSigma0 (schedule M (t - 15)) +
    schedule M (t - 16)
termination_by t

theorem schedule_of_lt {M : Nat → Word} {t : Nat} (h : t < 16) : schedule M t = M t := by
  rw [schedule, if_pos h]

theorem schedule_of_ge {M : Nat → Word} {t : Nat} (h : ¬ t < 16) :
    schedule M t = smallSigma1 (schedule M (t - 2)) + schedule M (t - 7) +
      smallSigma0 (schedule M (t - 15)) + schedule M (t - 16) := by
  rw [schedule, if_neg h]

/-- One round: `v` holds the working variables. -/
def round (k w : Word) (v : HashValue) : HashValue :=
  let t₁ := v 7 + bigSigma1 (v 4) + ch (v 4) (v 5) (v 6) + k + w
  let t₂ := bigSigma0 (v 0) + maj (v 0) (v 1) (v 2)
  ![t₁ + t₂, v 0, v 1, v 2, v 3 + t₁, v 4, v 5, v 6]

/-- The rounds up to `n`. -/
def rounds (M : Nat → Word) (H : HashValue) (n : Nat) : HashValue :=
  (List.range n).foldl (fun v t => round (roundConstant t) (schedule M t) v) H

theorem rounds_succ (M : Nat → Word) (H : HashValue) (n : Nat) :
    rounds M H (n + 1) = round (roundConstant n) (schedule M n) (rounds M H n) := by
  unfold rounds
  rw [List.range_succ, List.foldl_append]
  rfl

/-- The word `t` of a block. -/
def blockWord (block : ByteString) (t : Nat) : Word :=
  BitVec.ofNat 64 (ofBE (slice block (8 * t) 8))

def compress (H : HashValue) (block : ByteString) : HashValue :=
  fun i => rounds (blockWord block) H 80 i + H i

/-! ## Digests -/

/-- The padded message, hashed from the initial value `H`. -/
def digest (H : HashValue) (message : ByteString) : HashValue :=
  BlockHash.hash 128 compress H (message ++ BlockHash.padding 128 16 message.length)

def wordBytes (w : Word) : ByteString := toBE 8 w.toNat

def sha512 (message : ByteString) : ByteString :=
  (List.ofFn (digest (fun i => initialWord i) message)).flatMap wordBytes

def sha384 (message : ByteString) : ByteString :=
  ((List.ofFn (digest (fun i => initialWord (8 + i)) message)).flatMap wordBytes).take 48

end Sha2
